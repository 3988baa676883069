import Crosswalk.Proofs.Path.Derivation
import Crosswalk.Proofs.Path.SliceFrame

/-!
# Slices in machine words

The numbers of a slice are as large as they get. Here the same windows, reads and writes are
computed in words of 64 bits: signed ones for the start, the size and where the window begins,
unsigned ones for positions and counts. A step that leaves its words gives nothing, also where it
could stop at the greatest number instead, and so does a cut whose ends are out of order or beyond
the array. With a start and a size of signed words, up to both ends of their range, this never
happens for an array of a length that is a signed word, as all lengths in memory are.

* `signed?`, `unsigned?`: a number, if a word can hold it.
* `cut?`, `dropFront?`: parts of an array, if they lie in it.
* `windowInWords_eq`, `readInWords_eq`, `writeInWords_eq`: no step fails, and the result is that of
  the unbounded numbers.
-/

namespace Crosswalk

open Value

/-! ## Words -/

/-- The numbers of a signed word of 64 bits. -/
def FitsSigned (n : Int) : Prop := -(maxWord : Int) - 1 ≤ n ∧ n ≤ maxWord

/-- The numbers of an unsigned word of 64 bits. -/
def FitsUnsigned (n : Int) : Prop := 0 ≤ n ∧ n ≤ 2 * (maxWord : Int) + 1

instance (n : Int) : Decidable (FitsSigned n) := by
  unfold FitsSigned
  infer_instance

instance (n : Int) : Decidable (FitsUnsigned n) := by
  unfold FitsUnsigned
  infer_instance

/-- A number in a signed word, none if it does not fit. -/
def signed? (n : Int) : Option Int := if FitsSigned n then some n else none

/-- A number in an unsigned word, none if it does not fit. -/
def unsigned? (n : Int) : Option Nat := if FitsUnsigned n then some n.toNat else none

theorem signed?_of_fits {n : Int} (h : FitsSigned n) : signed? n = some n := if_pos h

theorem unsigned?_of_fits {n : Int} (h : FitsUnsigned n) : unsigned? n = some n.toNat := if_pos h

theorem unsigned?_natCast {n : Nat} (h : FitsUnsigned n) : unsigned? n = some n := if_pos h

/-- The elements from a position up to another one, none if these are out of order or beyond the
end. -/
def cut? (first stop : Nat) (xs : List Value) : Option (List Value) :=
  if first ≤ stop ∧ stop ≤ xs.length then some ((xs.take stop).drop first) else none

/-- The part of an array up to its end, whatever the ends of the cut. -/
theorem cut?_min (xs : List Value) (first count : Nat) :
    cut? (min first xs.length) (min (first + count) xs.length) xs
      = some ((xs.drop first).take count) := by
  rw [cut?, if_pos (by omega), List.drop_take]
  by_cases h : first ≤ xs.length
  · rw [Nat.min_eq_left h]
    refine congrArg some (List.take_eq_take_iff.mpr ?_)
    rw [List.length_drop]
    omega
  · rw [Nat.min_eq_right (show xs.length ≤ first by omega), List.drop_length,
      List.drop_of_length_le (show xs.length ≤ first by omega), List.take_nil, List.take_nil]

/-- The elements behind as many from the front, none if there are not so many. -/
def dropFront? (n : Nat) (xs : List Value) : Option (List Value) :=
  if n ≤ xs.length then some (xs.drop n) else none

namespace Slice

/-- A slice whose start and size are signed words. -/
def InWords (s : Slice) : Prop := FitsSigned s.start ∧ ∀ k, s.size = some k → FitsSigned k

theorem inWords_mk {start size : Int} (hstart : FitsSigned start) (hsize : FitsSigned size) :
    InWords ⟨start, some size⟩ :=
  ⟨hstart, fun _ h => Option.some.inj h ▸ hsize⟩

/-- Where the window begins, computed in words. -/
def originInWords (s : Slice) (n : Nat) : Option Int := do
  let length ← signed? n
  if s.start < 0 then signed? (length + s.start) else return s.start

/-- The window of a slice, computed in words. -/
def windowInWords (s : Slice) (n : Nat) : Option Window := do
  let origin ← s.originInWords n
  match s.size with
  | none =>
    let first ← unsigned? (max origin 0)
    let rest ← signed? (n - max 0 (min origin n))
    let count ← unsigned? rest
    return { first, count, overhang := 0 }
  | some size =>
    let span ← unsigned? size.natAbs
    if origin < 0 then
      let back ← unsigned? origin.natAbs
      let overhang := min back span
      let count ← unsigned? ((span : Int) - overhang)
      return { first := 0, count, overhang }
    else
      let first ← unsigned? origin
      return { first, count := span, overhang := 0 }

/-- The elements in the window, computed in words. -/
def readInWords (s : Slice) (v : Value) : Option (List Value) :=
  if s.size = some 0 then some []
  else do
    let w ← s.windowInWords v.items.length
    let stop ← unsigned? (w.first + w.count : Nat)
    let inside ← cut? (min w.first v.items.length) (min stop v.items.length) v.items
    return s.orient inside

/-- As many values as the slice is wide, the width computed in words. -/
def lineUpInWords (s : Slice) (vs : List Value) : Option (List Value) := do
  match s.size with
  | none => return s.orient vs
  | some size =>
    let width ← unsigned? size.natAbs
    return s.orient (vs.take width)

/-- The values that land in the window, computed in words. -/
def landingInWords (s : Slice) (n : Nat) (vs : List Value) : Option (List Value) := do
  let lined ← s.lineUpInWords vs
  let w ← s.windowInWords n
  let count := if s.size.isNone then lined.length else w.count
  let behind ← dropFront? (min w.overhang (lined.length - count)) lined
  return behind.take count

/-- Elements replaced by `middle` from a position on, computed in words. -/
def spliceInWords (xs : List Value) (first : Nat) (middle : List Value) :
    Option (List Value) := do
  let stop ← unsigned? (first + middle.length : Nat)
  let replaced ← unsigned? ((stop : Int) - first)
  return xs.take first ++ List.replicate (first - (xs.take first).length) Value.null ++ middle
    ++ (xs.drop first).drop replaced

/-- The window replaced by the entries of a value, computed in words. -/
def writeInWords (s : Slice) (v value : Value) : Option Value :=
  if s.size = some 0 then some (array v.items)
  else do
    let values ← s.landingInWords v.items.length value.entries
    let w ← s.windowInWords v.items.length
    let reach ← unsigned? (v.items.length + maxPadding : Nat)
    if values.isEmpty || reach < w.first then return array v.items
    else
      let items ← spliceInWords v.items w.first values
      return array items

/-! ## No step fails -/

variable {s : Slice} {n : Nat} {v value : Value}

theorem first_eq (s : Slice) (n : Nat) : (s.window n).first = (s.origin n).toNat := by
  cases hs : s.size <;> simp only [window, hs]

theorem originInWords_eq (h : s.InWords) (hn : n ≤ maxWord) :
    s.originInWords n = some (s.origin n) ∧ FitsSigned (s.origin n) := by
  obtain ⟨hlow, hhigh⟩ := h.1
  have hlength : FitsSigned n := ⟨by omega, by omega⟩
  rw [originInWords, signed?_of_fits hlength, Option.bind_eq_bind, Option.bind_some, origin]
  split
  · have hsum : FitsSigned (n + s.start) := ⟨by omega, by omega⟩
    exact ⟨signed?_of_fits hsum, hsum⟩
  · exact ⟨rfl, h.1⟩

theorem windowInWords_eq (h : s.InWords) (hn : n ≤ maxWord) :
    s.windowInWords n = some (s.window n) := by
  obtain ⟨horigin, hlow, hhigh⟩ := originInWords_eq h hn
  rw [windowInWords, horigin, Option.bind_eq_bind, Option.bind_some]
  generalize hat : s.origin n = at' at *
  cases hs : s.size with
  | none =>
    have hfirst : FitsUnsigned (max at' 0) := ⟨by omega, by omega⟩
    have hrest : FitsSigned (n - max 0 (min at' n)) := ⟨by omega, by omega⟩
    have hcount : FitsUnsigned (n - max 0 (min at' n)) := ⟨by omega, by omega⟩
    simp only [unsigned?_of_fits hfirst, signed?_of_fits hrest, unsigned?_of_fits hcount, window,
      hs, hat, Option.bind_eq_bind, Option.bind_some, Option.pure_def, Option.some.injEq,
      Window.mk.injEq, and_true]
    omega
  | some k =>
    obtain ⟨hlow', hhigh'⟩ := h.2 k hs
    have hspan : FitsUnsigned k.natAbs := ⟨by omega, by omega⟩
    simp only [unsigned?_of_fits hspan, Int.toNat_natCast, Option.bind_eq_bind, Option.bind_some,
      Option.pure_def, window, hs, hat]
    split
    · have hback : FitsUnsigned at'.natAbs := ⟨by omega, by omega⟩
      have hcount : FitsUnsigned (k.natAbs - (min at'.natAbs k.natAbs : Nat)) :=
        ⟨by omega, by omega⟩
      simp only [unsigned?_of_fits hback, Int.toNat_natCast, unsigned?_of_fits hcount,
        Option.bind_some, Option.some.injEq, Window.mk.injEq]
      omega
    · have hfirst : FitsUnsigned at' := ⟨by omega, by omega⟩
      simp only [unsigned?_of_fits hfirst, Option.bind_some, Option.some.injEq, Window.mk.injEq,
        true_and]
      omega

/-- No position of a window is beyond the unsigned words. -/
theorem stop_fits (h : s.InWords) (hn : n ≤ maxWord) :
    FitsUnsigned ((s.window n).first + (s.window n).count : Nat) := by
  obtain ⟨-, hlow, hhigh⟩ := originInWords_eq h hn
  refine ⟨by omega, ?_⟩
  cases hs : s.size with
  | none =>
    simp only [window, hs]
    omega
  | some k =>
    obtain ⟨hlow', hhigh'⟩ := h.2 k hs
    simp only [window, hs]
    omega

/-- A read in words gives what a read with numbers of any size gives. -/
theorem readInWords_eq (h : s.InWords) (hn : v.items.length ≤ maxWord) :
    s.readInWords v = some (s.read v) := by
  rw [readInWords, read]
  split
  · next h0 => simp [window, h0, orient]
  · simp only [windowInWords_eq h hn, unsigned?_natCast (stop_fits h hn), cut?_min,
      Option.bind_eq_bind, Option.bind_some, Option.pure_def]

/-- Values are lined up in words as with numbers of any size. -/
theorem lineUpInWords_eq (h : s.InWords) (vs : List Value) :
    s.lineUpInWords vs = some (s.lineUp vs) := by
  rw [lineUpInWords, lineUp]
  cases hs : s.size with
  | none => rfl
  | some k =>
    obtain ⟨hlow, hhigh⟩ := h.2 k hs
    have hspan : FitsUnsigned k.natAbs := ⟨by omega, by omega⟩
    simp only [unsigned?_of_fits hspan, Int.toNat_natCast, Option.bind_eq_bind, Option.bind_some,
      Option.pure_def]

/-- The same values land. -/
theorem landingInWords_eq (h : s.InWords) (hn : n ≤ maxWord) (vs : List Value) :
    s.landingInWords n vs = some (s.landing n vs) := by
  simp only [landingInWords, lineUpInWords_eq h, windowInWords_eq h hn, Option.bind_eq_bind,
    Option.bind_some, landing]
  rw [dropFront?, if_pos (by omega), Option.bind_some]
  rfl

/-- The same elements are replaced. -/
theorem spliceInWords_eq {xs middle : List Value} {first : Nat} (hfirst : first ≤ maxWord)
    (hmiddle : middle.length ≤ maxWord) :
    spliceInWords xs first middle = some (splice xs first middle) := by
  have hstop : FitsUnsigned (first + middle.length : Nat) := ⟨by omega, by omega⟩
  have hreplaced : FitsUnsigned ((first + middle.length : Nat) - first) := ⟨by omega, by omega⟩
  simp only [spliceInWords, unsigned?_natCast hstop, unsigned?_of_fits hreplaced,
    Option.bind_eq_bind, Option.bind_some, Option.pure_def, splice, List.drop_drop,
    List.length_take]
  rw [show ((first + middle.length : Nat) - first : Int).toNat = middle.length by omega,
    show first - min first xs.length = first - xs.length by omega]

/-- A write in words gives what a write with numbers of any size gives. -/
theorem writeInWords_eq (h : s.InWords) (hn : v.items.length ≤ maxWord)
    (hvs : value.entries.length ≤ maxWord) :
    s.writeInWords v value = some (s.write v value) := by
  rw [writeInWords, write, writeItems]
  split
  · next h0 =>
    have hland : s.landing v.items.length value.entries = [] := by
      simp [landing, lineUp, h0, orient]
    simp [hland]
  · have hreach : FitsUnsigned (v.items.length + maxPadding : Nat) := by
      simp only [FitsUnsigned, maxWord, maxPadding] at hn ⊢
      omega
    have hfirst : (s.window v.items.length).first ≤ maxWord := by
      have := (originInWords_eq h hn).2.2
      rw [first_eq]
      omega
    have hvalues : (s.landing v.items.length value.entries).length ≤ maxWord :=
      Nat.le_trans length_landing_le_length hvs
    simp only [landingInWords_eq h hn, windowInWords_eq h hn, unsigned?_natCast hreach,
      spliceInWords_eq hfirst hvalues, Option.bind_eq_bind, Option.bind_some, Option.pure_def]
    split <;> rfl

end Slice

end Crosswalk
