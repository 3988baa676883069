import Crosswalk.Plan.Run
import Crosswalk.Proofs.Json.NormalForm

/-!
# Numbers on their way through values

A JSON tree that becomes a value and a tree again keeps its shape, its members in their order and
its strings. Its numbers come back as they were, with the kind that they had, as far as a value can
hold them: a natural number beyond the signed words of 64 bits comes back as a binary64 number.

* `numbers`, `mapNumbers`: the numbers of a tree, and the tree with other numbers in their places.
* `Number.Canonical`: the numbers that are read from texts.
* `Number.Fits`, `Number.narrowed`: a number that a value can hold, and what becomes of any number.
* `Json.ofValue_toValue`: a tree comes back with its numbers narrowed.
* `mapNumbers_narrowed_eq_self_iff`: the trees that come back as they were.
* `Plan.run_whole`: a plan that joins whole documents passes a document through.
* `Json.passes_through`: all of this together.
-/

namespace Crosswalk

/-! ## One number -/

namespace Number

/-- A number as it is read from a text: any natural number of 64 bits, a negative integer, or a
finite binary64 number. -/
def Canonical : Number → Prop
  | natural _ => True
  | negative n => n.toInt < 0
  | real x => x.isFinite = true

/-- A number that a value can hold: no natural number beyond the signed words of 64 bits. -/
def Fits : Number → Prop
  | natural n => n.toNat < Nat.pow 2 63
  | _ => True

/-- What comes back of a number. -/
def narrowed : Number → Number
  | natural n => if n.toNat < Nat.pow 2 63 then natural n else real (Binary64.ofNat n.toNat)
  | n => n

theorem narrowed_eq_self_iff (n : Number) : n.narrowed = n ↔ n.Fits := by
  cases n <;> simp [narrowed, Fits]

theorem ofInt64_ofInt_toNat {n : UInt64} (h : n.toNat < Nat.pow 2 63) :
    ofInt64 (Int64.ofInt n.toNat) = natural n := by
  simp only [Nat.pow_eq] at h
  have hint : (Int64.ofInt n.toNat).toInt = n.toNat := Int64.toInt_ofInt_of_le (by omega) (by omega)
  rw [ofInt64, hint, if_neg (by omega), Int.toNat_natCast, UInt64.ofNat_toNat]

/-- A number of a text becomes a value and a number again. -/
theorem ofValue_toValue_of_canonical {n : Number} (h : n.Canonical) :
    Json.ofValue n.toValue = .number n.narrowed := by
  cases n with
  | natural n =>
    by_cases hn : n.toNat < Nat.pow 2 63
    · have hvalue : (natural n).toValue = .int (Int64.ofInt n.toNat) := if_pos hn
      rw [hvalue, Json.ofValue, ofInt64_ofInt_toNat hn, narrowed, if_pos hn]
    · have hvalue : (natural n).toValue = .float (Binary64.ofNat n.toNat) := if_neg hn
      rw [hvalue, Json.ofValue, if_pos (Binary64.isFinite_ofNat n.toNat_lt), narrowed, if_neg hn]
  | negative n =>
    have hneg : n.toInt < 0 := h
    simp [toValue, narrowed, Json.ofValue, ofInt64, hneg]
  | real x =>
    have hfinite : x.isFinite = true := h
    simp [toValue, narrowed, Json.ofValue, hfinite]

end Number

/-! ## The numbers of a tree -/

namespace Json

/-- What holds of every tree follows from its elements and its members. -/
theorem induct {p : Json → Prop} (null : p null) (bool : ∀ b, p (bool b))
    (number : ∀ n, p (number n)) (string : ∀ s, p (string s))
    (array : ∀ xs, (∀ x ∈ xs, p x) → p (array xs))
    (object : ∀ ms, (∀ m ∈ ms, p m.2) → p (object ms)) : ∀ j, p j
  | .null => null
  | .bool b => bool b
  | .number n => number n
  | .string s => string s
  | .array xs => array xs fun x _ => induct null bool number string array object x
  | .object ms => object ms fun m hm =>
      have := sizeOf_member_lt hm
      induct null bool number string array object m.2
termination_by j => sizeOf j

/-- The numbers of a tree in their order. -/
def numbers : Json → List Number
  | number n => [n]
  | array xs => xs.flatMap numbers
  | object ms => ms.flatMap fun m => numbers m.2
  | _ => []
decreasing_by
  · have := List.sizeOf_lt_of_mem ‹_›
    simp only [array.sizeOf_spec]; omega
  · have := sizeOf_member_lt ‹_›
    simp only [object.sizeOf_spec]; omega

/-- The tree with another number in the place of each one. -/
def mapNumbers (f : Number → Number) : Json → Json
  | number n => number (f n)
  | array xs => array (xs.map (mapNumbers f))
  | object ms => object (ms.map fun m => (m.1, mapNumbers f m.2))
  | j => j
decreasing_by
  · have := List.sizeOf_lt_of_mem ‹_›
    simp only [array.sizeOf_spec]; omega
  · have := sizeOf_member_lt ‹_›
    simp only [object.sizeOf_spec]; omega

variable {f : Number → Number} {xs : List Json} {ms : Members Json}

theorem numbers_array : (array xs).numbers = xs.flatMap numbers := by rw [numbers]

theorem numbers_object : (object ms).numbers = ms.flatMap fun m => m.2.numbers := by rw [numbers]

theorem mapNumbers_array : (array xs).mapNumbers f = array (xs.map (mapNumbers f)) := by
  rw [mapNumbers]

theorem mapNumbers_object : (object ms).mapNumbers f
    = object (ms.map fun m => (m.1, m.2.mapNumbers f)) := by rw [mapNumbers]

/-- A tree is the same with other numbers if and only if these are the same. -/
theorem mapNumbers_eq_self_iff (j : Json) : j.mapNumbers f = j ↔ ∀ n ∈ j.numbers, f n = n := by
  induction j using Json.induct with
  | number n => simp [mapNumbers, numbers]
  | array xs ih =>
    rw [mapNumbers_array, array.injEq, Value.map_eq_self_iff, numbers_array, forall₂_congr ih,
      List.forall_mem_flatMap]
  | object ms ih =>
    have hlevel : ∀ m ∈ ms, (m.1, m.2.mapNumbers f) = m ↔ ∀ n ∈ m.2.numbers, f n = n := by
      intro m hm
      rw [← ih m hm, Prod.ext_iff]
      exact and_iff_right rfl
    rw [mapNumbers_object, object.injEq, Value.map_eq_self_iff, numbers_object,
      forall₂_congr hlevel, List.forall_mem_flatMap]
  | _ => simp [mapNumbers, numbers]

/-- The trees that are the same with their numbers narrowed. -/
theorem mapNumbers_narrowed_eq_self_iff (j : Json) :
    j.mapNumbers Number.narrowed = j ↔ ∀ n ∈ j.numbers, n.Fits := by
  simp only [mapNumbers_eq_self_iff, Number.narrowed_eq_self_iff]

/-! ## Through a value and back -/

theorem ofValue_toValue (j : Json) (h : ∀ n ∈ j.numbers, n.Canonical) :
    ofValue j.toValue = j.mapNumbers Number.narrowed := by
  induction j using Json.induct with
  | number n =>
    rw [toValue, mapNumbers]
    exact Number.ofValue_toValue_of_canonical (h n (by simp [numbers]))
  | array xs ih =>
    rw [toValue, ofValue_array, List.map_map, mapNumbers_array]
    refine congrArg _ (List.map_congr_left fun x hx => ih x hx fun n hn => h n ?_)
    exact numbers_array ▸ List.mem_flatMap.mpr ⟨x, hx, hn⟩
  | object ms ih =>
    -- the value of a tree is never undefined, so that no member is left out
    have hkept : ∀ m ∈ ms.map fun m => (m.1, m.2.toValue), (!m.2.isUndefined) = true := by
      intro n hn
      obtain ⟨m, -, rfl⟩ := List.mem_map.mp hn
      simpa using m.2.clean_toValue.1
    rw [toValue, ofValue_map, List.filter_eq_self.mpr hkept, List.map_map, mapNumbers_object]
    refine congrArg _ (List.map_congr_left fun m hm => Prod.ext rfl (ih m hm fun n hn => h n ?_))
    exact numbers_object ▸ List.mem_flatMap.mpr ⟨m, hm, hn⟩
  | _ => simp [toValue, ofValue, mapNumbers]

end Json

/-! ## Whole documents -/

/-- The link between the whole documents of both sides. -/
def Link.whole : Link := ⟨0, .path .root, .path .root, none, none⟩

/-- A plan with nothing but the link between whole documents passes a document through. -/
theorem Plan.run_whole (order : OrderPolicy) (d : Direction) {v : Value} (h : v ≠ .undefined) :
    (Plan.mk [Link.whole] order).run d none v = .ok v := by
  have halong : (Plan.mk [Link.whole] order).along d = [Link.whole] := by
    unfold Plan.along
    cases order.along d <;> rfl
  have hends : Link.whole.ends d = (.path .root, .path .root) := by cases d <;> rfl
  have hconvert : Link.whole.convert d v = .ok v := by
    cases d <;> simp [Link.whole, Link.convert, Link.applyTransform, Link.applyFormat, Except.bind, h]
  have happly : Link.whole.apply d v (.map []) = .ok v := by
    rw [Link.apply, hends]
    show (Link.whole.convert d v).map (inject [] (.map [])) = .ok v
    rw [hconvert]
    simp [Except.map, inject, h]
  rw [Plan.run, halong, applyLinks, happly]
  rfl

namespace Json

/-- A tree with numbers that are read from texts comes back from its value, by itself or through a
plan that joins whole documents, with its numbers narrowed, and as it was if and only if a value can
hold all of them. -/
theorem passes_through (j : Json) (h : ∀ n ∈ j.numbers, n.Canonical) :
    ofValue j.toValue = j.mapNumbers Number.narrowed ∧
      (∀ order d, ((Plan.mk [Link.whole] order).run d none j.toValue).map ofValue
        = .ok (j.mapNumbers Number.narrowed)) ∧
      (ofValue j.toValue = j ↔ ∀ n ∈ j.numbers, n.Fits) := by
  refine ⟨ofValue_toValue j h, fun order d => ?_, ?_⟩
  · rw [Plan.run_whole order d j.clean_toValue.1]
    exact congrArg _ (ofValue_toValue j h)
  · rw [ofValue_toValue j h, mapNumbers_narrowed_eq_self_iff]

/-- A record with the greatest number that a text can hold, and with the least. -/
def extremes : Json :=
  object [("id", number (.natural 18446744073709551615)),
    ("low", number (.negative (-9223372036854775808))),
    ("rows", array [number (.natural 9223372036854775807), number (.real ⟨0x4004000000000000⟩), null])]

/-- Of the numbers in the record, the greatest one alone is changed, to `2 ^ 64`. -/
theorem passes_through_extremes : (∀ n ∈ extremes.numbers, n.Canonical) ∧
    ofValue extremes.toValue = object [("id", number (.real ⟨0x43f0000000000000⟩)),
      ("low", number (.negative (-9223372036854775808))),
      ("rows", array [number (.natural 9223372036854775807),
        number (.real ⟨0x4004000000000000⟩), null])] := by
  have hcanonical : ∀ n ∈ extremes.numbers, n.Canonical := by
    have hreal : Binary64.isFinite ⟨0x4004000000000000⟩ = true := by decide
    simp [extremes, numbers, Number.Canonical, hreal]
  have hround : Binary64.ofNat 18446744073709551615 = ⟨0x43f0000000000000⟩ := by decide +kernel
  refine ⟨hcanonical, (passes_through extremes hcanonical).1.trans ?_⟩
  simp [extremes, mapNumbers, Number.narrowed, hround]

/-- A number beyond the signed words of 64 bits does not come back as it was. -/
theorem not_passes_through_unchanged :
    ¬ ∀ j : Json, (∀ n ∈ j.numbers, n.Canonical) → ofValue j.toValue = j := by
  intro h
  have hcanonical : ∀ n ∈ (number (.natural 18446744073709551615)).numbers, n.Canonical := by
    simp [numbers, Number.Canonical]
  have hsame := h _ hcanonical
  rw [ofValue_toValue _ hcanonical, mapNumbers_narrowed_eq_self_iff] at hsame
  have hfits : Number.Fits (.natural 18446744073709551615) := hsame _ (by simp [numbers])
  simp [Number.Fits] at hfits

end Json

end Crosswalk
