import Crosswalk.Text.Blank
import Mathlib.Data.List.DropRight

/-!
# Blanks around a text

* `trim_eq_self`: a text that neither begins nor ends with a blank stays as it is.
* `countP_trim_lt_of_starts`, `countP_trim_lt_of_ends`: any other text loses a blank.
* `exists_trim`: a text is what is left of it with the blanks that are taken off around it.
* `trimEnd_padded`, `trim_padded`: more blanks around a text make no difference.
* `byteLength_toList`: lengths in bytes are those of UTF-8.
-/

namespace Crosswalk.Text

/-- A text begins with a blank. -/
def startsBlank (cs : List Char) : Bool := cs.head?.any isBlank

/-- A text ends with a blank. -/
def endsBlank (cs : List Char) : Bool := cs.getLast?.any isBlank

theorem trimStart_eq_self {cs : List Char} (h : startsBlank cs = false) : trimStart cs = cs := by
  cases cs with
  | nil => rfl
  | cons c cs => simpa [trimStart, startsBlank] using h

theorem trimEnd_eq_self {cs : List Char} (h : endsBlank cs = false) : trimEnd cs = cs := by
  have hback : startsBlank cs.reverse = false := by simpa [startsBlank, endsBlank] using h
  have := trimStart_eq_self hback
  rw [trimStart] at this
  rw [trimEnd, this, List.reverse_reverse]

theorem trim_eq_self {cs : List Char} (hstart : startsBlank cs = false)
    (hend : endsBlank cs = false) : trim cs = cs := by
  rw [trim, trimEnd_eq_self hend, trimStart_eq_self hstart]

theorem trimEnd_prefix (cs : List Char) : trimEnd cs <+: cs := List.rdropWhile_prefix _ cs

theorem countP_trimStart_lt {cs : List Char} (h : startsBlank cs) :
    (trimStart cs).countP isBlank < cs.countP isBlank := by
  cases cs with
  | nil => simp [startsBlank] at h
  | cons c cs =>
    have hc : isBlank c = true := by simpa [startsBlank] using h
    have hle : (cs.dropWhile isBlank).countP isBlank ≤ cs.countP isBlank :=
      (List.dropWhile_sublist _).countP_le
    simp only [trimStart, List.dropWhile_cons, hc, if_true, List.countP_cons]
    omega

theorem countP_trimEnd_lt {cs : List Char} (h : endsBlank cs) :
    (trimEnd cs).countP isBlank < cs.countP isBlank := by
  have hback : startsBlank cs.reverse = true := by simpa [startsBlank, endsBlank] using h
  have := countP_trimStart_lt hback
  rwa [trimStart, List.countP_reverse, ← List.countP_reverse, ← trimEnd] at this

/-- A text that begins with a blank loses one when it is trimmed. -/
theorem countP_trim_lt_of_starts {cs : List Char} (h : startsBlank cs) :
    (trim cs).countP isBlank < cs.countP isBlank := by
  have hpre := trimEnd_prefix cs
  have hle : (trimEnd cs).countP isBlank ≤ cs.countP isBlank := hpre.sublist.countP_le
  cases he : trimEnd cs with
  | nil =>
    cases cs with
    | nil => simp [startsBlank] at h
    | cons c cs =>
      have hc : isBlank c = true := by simpa [startsBlank] using h
      simp [trim, he, trimStart, hc]
  | cons c ds =>
    have hstart : startsBlank (trimEnd cs) = true := by
      obtain ⟨rest, hcs⟩ := hpre
      rw [← hcs, he] at h
      rw [he]
      simpa [startsBlank] using h
    exact Nat.lt_of_lt_of_le (countP_trimStart_lt hstart) hle

/-- A text that ends with a blank loses one when it is trimmed. -/
theorem countP_trim_lt_of_ends {cs : List Char} (h : endsBlank cs) :
    (trim cs).countP isBlank < cs.countP isBlank :=
  Nat.lt_of_le_of_lt (List.dropWhile_sublist _).countP_le (countP_trimEnd_lt h)

/-- A text that loses no blank when it is trimmed has none at its ends. -/
theorem ends_of_countP_le {cs : List Char} (h : cs.countP isBlank ≤ (trim cs).countP isBlank) :
    startsBlank cs = false ∧ endsBlank cs = false := by
  constructor
  · cases hblank : startsBlank cs with
    | false => rfl
    | true => exact absurd (countP_trim_lt_of_starts hblank) (by omega)
  · cases hblank : endsBlank cs with
    | false => rfl
    | true => exact absurd (countP_trim_lt_of_ends hblank) (by omega)

/-- The blanks that are taken off a text stand around what is left of it. -/
theorem exists_trim (cs : List Char) : ∃ lead trail, trimEnd cs = lead ++ trim cs ∧
    cs = lead ++ trim cs ++ trail ∧ (∀ c ∈ lead, isBlank c = true) ∧
    ∀ c ∈ trail, isBlank c = true := by
  have hlead : (trimEnd cs).takeWhile isBlank ++ trim cs = trimEnd cs :=
    List.takeWhile_append_dropWhile
  have htrail : trimEnd cs ++ cs.rtakeWhile isBlank = cs := List.rdropWhile_append_rtakeWhile
  refine ⟨_, cs.rtakeWhile isBlank, hlead.symm, ?_, fun c => List.mem_takeWhile_imp,
    fun c => List.mem_rtakeWhile_imp⟩
  rw [hlead, htrail]

theorem startsBlank_trim (cs : List Char) : startsBlank (trim cs) = false := by
  have hfirst := List.head?_dropWhile_not isBlank (trimEnd cs)
  rw [startsBlank, trim, trimStart]
  cases hhead : ((trimEnd cs).dropWhile isBlank).head? with
  | none => rfl
  | some c => simpa [hhead] using hfirst

theorem endsBlank_of_suffix {cs ds : List Char} (hsuffix : ds <:+ cs) (h : endsBlank ds = true) :
    endsBlank cs = true := by
  obtain ⟨front, rfl⟩ := hsuffix
  unfold endsBlank at h ⊢
  cases hlast : ds.getLast? with
  | none => simp [hlast] at h
  | some c => simpa [List.getLast?_append, hlast] using h

theorem endsBlank_trimEnd (cs : List Char) : endsBlank (trimEnd cs) = false := by
  have hfirst := List.head?_dropWhile_not isBlank cs.reverse
  unfold endsBlank trimEnd
  rw [List.getLast?_reverse]
  cases hhead : (cs.reverse.dropWhile isBlank).head? with
  | none => rfl
  | some c => simpa [hhead] using hfirst

theorem endsBlank_trim (cs : List Char) : endsBlank (trim cs) = false := by
  cases h : endsBlank (trim cs) with
  | false => rfl
  | true =>
    have hend := endsBlank_of_suffix (List.dropWhile_suffix isBlank) h
    rw [endsBlank_trimEnd] at hend
    cases hend

/-- Blanks around a text are taken off it, and only they, if it has other characters. -/
theorem trimEnd_padded {lead cs trail : List Char} (htrail : ∀ c ∈ trail, isBlank c = true)
    (hcs : ∃ c ∈ cs, isBlank c = false) :
    trimEnd (lead ++ cs ++ trail) = lead ++ trimEnd cs := by
  have hback : ∀ c ∈ trail.reverse, isBlank c = true := fun c hc => htrail c (by simpa using hc)
  have hkept : (cs.reverse.dropWhile isBlank).isEmpty = false := by
    obtain ⟨c, hc, hno⟩ := hcs
    rw [List.isEmpty_eq_false_iff]
    intro hnil
    have := List.dropWhile_eq_nil_iff.mp hnil c (by simpa using hc)
    rw [hno] at this
    cases this
  rw [trimEnd, List.reverse_append, List.dropWhile_append_of_pos hback, List.reverse_append,
    List.dropWhile_append, hkept, if_neg (by simp), List.reverse_append, List.reverse_reverse,
    trimEnd]

/-- Nothing is left of a text exactly if it is blank. -/
theorem trim_eq_nil_iff {cs : List Char} : trim cs = [] ↔ ∀ c ∈ cs, isBlank c = true := by
  obtain ⟨lead, trail, -, hcs, hlead, htrail⟩ := exists_trim cs
  constructor
  · intro hnil c hc
    rw [hcs, hnil, List.append_nil, List.mem_append] at hc
    exact hc.elim (hlead c) (htrail c)
  · intro hblank
    cases hleft : trim cs with
    | nil => rfl
    | cons c rest =>
      have hstart := startsBlank_trim cs
      have hc : isBlank c = true := hblank c (by rw [hcs, hleft]; simp)
      simp [hleft, startsBlank, hc] at hstart

theorem exists_of_trim_ne_nil {cs : List Char} (h : trim cs ≠ []) :
    ∃ c ∈ cs, isBlank c = false := by
  by_contra hno
  refine h (trim_eq_nil_iff.mpr fun c hc => ?_)
  simpa using fun hblank => hno ⟨c, hc, hblank⟩

theorem trim_padded {lead cs trail : List Char} (hlead : ∀ c ∈ lead, isBlank c = true)
    (htrail : ∀ c ∈ trail, isBlank c = true) : trim (lead ++ cs ++ trail) = trim cs := by
  by_cases hnil : trim cs = []
  · rw [hnil, trim_eq_nil_iff]
    intro c hc
    rw [List.mem_append, List.mem_append] at hc
    exact hc.elim (fun hc => hc.elim (hlead c) (trim_eq_nil_iff.mp hnil c)) (htrail c)
  · rw [trim, trimEnd_padded htrail (exists_of_trim_ne_nil hnil), trimStart,
      List.dropWhile_append_of_pos hlead]
    rfl

theorem byteLength_append (cs ds : List Char) :
    byteLength (cs ++ ds) = byteLength cs + byteLength ds := by
  induction cs with
  | nil => exact (Nat.zero_add _).symm
  | cons c cs ih => exact (congrArg (c.utf8Size + ·) ih).trans (Nat.add_assoc _ _ _).symm

/-- The end of a text is no longer than the text. -/
theorem byteLength_le_of_append {cs front rest : List Char} (h : cs = front ++ rest) :
    byteLength rest ≤ byteLength cs := by
  rw [h, byteLength_append]
  omega

/-- The length in bytes is that of the text in UTF-8. -/
theorem utf8ByteSize_ofList (cs : List Char) :
    (String.ofList cs).utf8ByteSize = byteLength cs := by
  induction cs with
  | nil => rfl
  | cons c cs ih =>
    rw [String.ofList_cons, String.utf8ByteSize_append, String.utf8ByteSize_singleton, ih]
    rfl

theorem byteLength_toList (s : String) : byteLength s.toList = s.utf8ByteSize := by
  rw [← utf8ByteSize_ofList, String.ofList_toList]

end Crosswalk.Text
