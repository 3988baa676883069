import Crosswalk.Proofs.Text.EditDistance
import Crosswalk.Text.Suggestion

/-!
# The nearest of several names

The candidate that is suggested is the first of those that are nearest to a text, and there is none
exactly if all of them are further away than the bound. Near is a matter of edits: the distance is
the least number of them, and so it is a metric on texts.

* `editDistance_comm`, `editDistance_eq_zero_iff`, `editDistance_triangle`: the metric.
* `toList_lower_of_ascii`: the lower case of a text without other characters than ASCII ones.
* `firstLeast_eq_some_iff`: the first of the entries with the least key.
* `closest?_eq_none_iff`, `closest?_eq_some_iff`: what is suggested.
* `nearest_candidate`: all of this in one statement.
-/

namespace Crosswalk.Text

/-! ## A metric -/

section Metric

variable {n : Nat} {cs ds es : List Char}

theorem edits_editDistance (cs ds : List Char) : Edits (editDistance cs ds) cs ds :=
  (isLeast_edits cs ds).1

theorem Edits.editDistance_le (h : Edits n cs ds) : editDistance cs ds ≤ n :=
  (isLeast_edits cs ds).2 h

theorem editDistance_comm (cs ds : List Char) : editDistance cs ds = editDistance ds cs :=
  Nat.le_antisymm (edits_editDistance ds cs).symm.editDistance_le
    (edits_editDistance cs ds).symm.editDistance_le

theorem editDistance_eq_zero_iff : editDistance cs ds = 0 ↔ cs = ds := by
  constructor
  · intro h
    exact edits_zero_iff.mp (h ▸ edits_editDistance cs ds)
  · rintro rfl
    exact Nat.le_zero.mp (Edits.done cs).editDistance_le

theorem editDistance_triangle (cs ds es : List Char) :
    editDistance cs es ≤ editDistance cs ds + editDistance ds es :=
  ((edits_editDistance cs ds).trans (edits_editDistance ds es)).editDistance_le

end Metric

/-! ## Lower case -/

theorem lowerChars_of_ascii {before cs : List Char} (h : ∀ c ∈ cs, c.toNat < 128) :
    lowerChars before cs = cs.map Char.toLower := by
  induction cs generalizing before with
  | nil => rfl
  | cons c cs ih =>
    obtain ⟨hc, hcs⟩ := List.forall_mem_cons.mp h
    -- The two characters with rules of their own are no ASCII ones.
    have hsigma : c ≠ '\u03a3' := fun heq => absurd (heq ▸ hc) (by decide)
    have hdotted : c ≠ '\u0130' := fun heq => absurd (heq ▸ hc) (by decide)
    rw [lowerChars, if_neg hsigma, if_neg hdotted, if_pos hc, ih hcs]
    rfl

theorem toList_lower_of_ascii {s : String} (h : ∀ c ∈ s.toList, c.toNat < 128) :
    (lower s).toList = s.toList.map Char.toLower := by
  rw [lower, String.toList_ofList, lowerChars_of_ascii h]

/-! ## The first of the least -/

section FirstLeast

variable {α : Type} {es : List (Nat × α)} {e best : Nat × α}

/-- An entry among others: the keys before it are greater, and none behind it is less. -/
def FirstLeast (es : List (Nat × α)) (e : Nat × α) : Prop :=
  ∃ front back, es = front ++ e :: back ∧ (∀ f ∈ front, e.1 < f.1) ∧ ∀ f ∈ back, e.1 ≤ f.1

theorem FirstLeast.mem (h : FirstLeast es e) : e ∈ es := by
  obtain ⟨front, back, rfl, -, -⟩ := h
  exact List.mem_append_right front List.mem_cons_self

theorem FirstLeast.le (h : FirstLeast es e) : ∀ f ∈ es, e.1 ≤ f.1 := by
  obtain ⟨front, back, rfl, hfront, hback⟩ := h
  intro f hf
  rcases List.mem_append.mp hf with hf | hf
  · exact Nat.le_of_lt (hfront f hf)
  rcases List.mem_cons.mp hf with rfl | hf
  · exact Nat.le_refl _
  · exact hback f hf

theorem FirstLeast.cons_of_lt (h : FirstLeast es best) (hlt : best.1 < e.1) :
    FirstLeast (e :: es) best := by
  obtain ⟨front, back, rfl, hfront, hback⟩ := h
  exact ⟨e :: front, back, rfl, List.forall_mem_cons.mpr ⟨hlt, hfront⟩, hback⟩

theorem firstLeast_head (h : ∀ f ∈ es, e.1 ≤ f.1) : FirstLeast (e :: es) e :=
  ⟨[], es, rfl, by simp, h⟩

theorem firstLeast_cons (e : Nat × α) (es : List (Nat × α)) : firstLeast (e :: es)
    = match firstLeast es with
      | some best => if best.1 < e.1 then some best else some e
      | none => some e := by
  rw [firstLeast]
  cases firstLeast es <;> rfl

theorem firstLeast_eq_none_iff : firstLeast es = none ↔ es = [] := by
  cases es with
  | nil => simp [firstLeast]
  | cons e es =>
    rw [firstLeast_cons]
    cases firstLeast es with
    | none => simp
    | some best =>
      dsimp only
      split <;> simp

theorem FirstLeast.of_eq_some (h : firstLeast es = some e) : FirstLeast es e := by
  induction es generalizing e with
  | nil => simp [firstLeast] at h
  | cons first es ih =>
    rw [firstLeast_cons] at h
    cases hrest : firstLeast es with
    | none =>
      rw [hrest] at h
      obtain rfl := Option.some.inj h
      obtain rfl := firstLeast_eq_none_iff.mp hrest
      exact firstLeast_head (by simp)
    | some best =>
      rw [hrest] at h
      by_cases hlt : best.1 < first.1
      · obtain rfl : best = e := by simpa [hlt] using h
        exact (ih hrest).cons_of_lt hlt
      · obtain rfl : first = e := by simpa [hlt] using h
        exact firstLeast_head fun f hf =>
          Nat.le_trans (Nat.le_of_not_lt hlt) ((ih hrest).le f hf)

theorem firstLeast_eq_some_iff : firstLeast es = some e ↔ FirstLeast es e := by
  refine ⟨.of_eq_some, ?_⟩
  rintro ⟨front, back, rfl, hfront, hback⟩
  induction front with
  | nil =>
    rw [List.nil_append, firstLeast_cons]
    cases hrest : firstLeast back with
    | none => rfl
    | some best =>
      exact if_neg (Nat.not_lt.mpr (hback best (FirstLeast.of_eq_some hrest).mem))
  | cons first front ih =>
    obtain ⟨hfirst, hfront⟩ := List.forall_mem_cons.mp hfront
    rw [List.cons_append, firstLeast_cons, ih hfront]
    exact if_pos hfirst

/-- It does not matter whether what is above a bound is left out before or behind the choice. -/
theorem firstLeast_filter (bound : Nat) (es : List (Nat × α)) :
    firstLeast (es.filter fun e => e.1 ≤ bound)
      = (firstLeast es).filter fun e => e.1 ≤ bound := by
  cases hall : firstLeast es with
  | none =>
    obtain rfl := firstLeast_eq_none_iff.mp hall
    rfl
  | some best =>
    have hbest := FirstLeast.of_eq_some hall
    by_cases hbound : best.1 ≤ bound
    · obtain ⟨front, back, rfl, hfront, hback⟩ := hbest
      have hkept : FirstLeast ((front ++ best :: back).filter fun e => e.1 ≤ bound) best :=
        ⟨front.filter fun e => e.1 ≤ bound, back.filter fun e => e.1 ≤ bound, by simp [hbound],
          fun f hf => hfront f (List.mem_filter.mp hf).1,
          fun f hf => hback f (List.mem_filter.mp hf).1⟩
      rw [firstLeast_eq_some_iff.mpr hkept, Option.filter_some_pos (by simpa using hbound)]
    · have hnone : es.filter (fun e => e.1 ≤ bound) = [] :=
        List.filter_eq_nil_iff.mpr fun f hf => by
          have := hbest.le f hf
          simp only [decide_eq_true_eq]
          omega
      rw [hnone, Option.filter_some_neg (by simpa using hbound)]
      rfl

end FirstLeast

/-! ## Suggestions -/

section Closest

variable {bound : Nat} {candidates : List String} {input suggestion : String}

theorem closest?_eq (bound : Nat) (candidates : List String) (input : String) :
    closest? bound candidates input
      = ((firstLeast (candidates.map fun c => (caselessDistance input c, c))).filter
          fun e => e.1 ≤ bound).map Prod.snd := by
  rw [closest?, firstLeast_filter]

theorem closest?_eq_none_iff : closest? bound candidates input = none ↔
    ∀ c ∈ candidates, bound < caselessDistance input c := by
  simp only [closest?, Option.map_eq_none_iff, firstLeast_eq_none_iff, List.filter_eq_nil_iff,
    List.forall_mem_map, decide_eq_true_eq, Nat.not_le]

theorem closest?_eq_some_iff : closest? bound candidates input = some suggestion ↔
    caselessDistance input suggestion ≤ bound ∧ ∃ front back,
      candidates = front ++ suggestion :: back ∧
      (∀ c ∈ front, caselessDistance input suggestion < caselessDistance input c) ∧
      ∀ c ∈ back, caselessDistance input suggestion ≤ caselessDistance input c := by
  rw [closest?_eq]
  simp only [Option.map_eq_some_iff, Option.filter_eq_some_iff, firstLeast_eq_some_iff,
    decide_eq_true_eq]
  -- Any key would do, and the distance need not be worked out.
  generalize caselessDistance input = key
  constructor
  · rintro ⟨⟨key, c⟩, ⟨⟨front, back, hsplit, hfront, hback⟩, hbound⟩, rfl⟩
    obtain ⟨before, rest, rfl, rfl, hrest⟩ := List.map_eq_append_iff.mp hsplit
    obtain ⟨s, after, rfl, hs, rfl⟩ := List.map_eq_cons_iff.mp hrest
    obtain ⟨rfl, rfl⟩ := Prod.mk.inj hs
    simp only [List.forall_mem_map] at hfront hback
    exact ⟨hbound, before, after, rfl, hfront, hback⟩
  · rintro ⟨hbound, front, back, rfl, hfront, hback⟩
    refine ⟨_, ⟨⟨_, _, List.map_append, ?_, ?_⟩, hbound⟩, rfl⟩
    · simpa only [List.forall_mem_map] using hfront
    · simpa only [List.forall_mem_map] using hback

/-- The distance of two texts is the least number of characters to insert, to delete and to
substitute, and a metric; two rows that are written over in turns are enough to compute it. What is
suggested is the first of the candidates whose lower case is nearest to that of the input, as it is
written among the candidates, and nothing is suggested exactly if all of them are further away than
the bound. The lower case of ASCII characters is that of each of them. -/
theorem nearest_candidate :
    (∀ cs ds : List Char, IsLeast {n | Edits n cs ds} (editDistance cs ds)) ∧
    (∀ cs ds : List Char, editDistance cs ds = editDistance ds cs) ∧
    (∀ cs ds : List Char, editDistance cs ds = 0 ↔ cs = ds) ∧
    (∀ cs ds es : List Char, editDistance cs es ≤ editDistance cs ds + editDistance ds es) ∧
    (∀ (stale : Nat) (cs ds : List Char),
      distanceInTwoRows? stale cs ds = some (editDistance cs ds)) ∧
    (∀ s : String, (∀ c ∈ s.toList, c.toNat < 128) →
      (lower s).toList = s.toList.map Char.toLower) ∧
    ∀ (bound : Nat) (candidates : List String) (input : String),
      (closest? bound candidates input = none ↔
        ∀ c ∈ candidates, bound < editDistance (lower input).toList (lower c).toList) ∧
      ∀ suggestion, closest? bound candidates input = some suggestion ↔
        editDistance (lower input).toList (lower suggestion).toList ≤ bound ∧ ∃ front back,
          candidates = front ++ suggestion :: back ∧
          (∀ c ∈ front, editDistance (lower input).toList (lower suggestion).toList
            < editDistance (lower input).toList (lower c).toList) ∧
          ∀ c ∈ back, editDistance (lower input).toList (lower suggestion).toList
            ≤ editDistance (lower input).toList (lower c).toList :=
  ⟨isLeast_edits, editDistance_comm, fun _ _ => editDistance_eq_zero_iff, editDistance_triangle,
    distanceInTwoRows?_eq, fun _ => toList_lower_of_ascii,
    fun _ _ _ => ⟨closest?_eq_none_iff, fun _ => closest?_eq_some_iff⟩⟩

/-- A capital input finds the small candidate at no distance, and a small one finds the candidate
with a capital; of two candidates at one distance the first one is found. Other alphabets have
capitals, too. -/
theorem nearest_candidate_yaml :
    (∀ c ∈ "YAML".toList, c.toNat < 128) ∧ (lower "YAML").toList = "yaml".toList ∧
    closest? 0 ["json", "yaml", "toml"] "YAML" = some "yaml" ∧
    closest? 2 ["Json", "Toml", "Tomb"] "tomx" = some "Toml" ∧
    closest? 0 ["json", "σίσυφος"] "ΣΊΣΥΦΟΣ" = some "σίσυφος" ∧
    closest? 2 ["json", "yaml", "toml"] "csv" = none := by
  obtain ⟨-, -, -, -, -, hlower, hclosest⟩ := nearest_candidate
  have hall : ("YAML".toList.all fun c => c.toNat < 128) = true := by decide
  have hascii : ∀ c ∈ "YAML".toList, c.toNat < 128 := fun c hc =>
    of_decide_eq_true (List.all_eq_true.mp hall c hc)
  refine ⟨hascii, (hlower "YAML" hascii).trans (by decide), ?_, ?_, ?_, ?_⟩
  · exact ((hclosest _ _ _).2 _).mpr
      ⟨by decide +kernel, ["json"], ["toml"], rfl, by decide +kernel, by decide +kernel⟩
  · exact ((hclosest _ _ _).2 _).mpr
      ⟨by decide +kernel, ["Json"], ["Tomb"], rfl, by decide +kernel, by decide +kernel⟩
  · exact ((hclosest _ _ _).2 _).mpr
      ⟨by decide +kernel, ["json"], [], rfl, by decide +kernel, by decide +kernel⟩
  · exact (hclosest _ _ _).1.mpr (by decide +kernel)

end Closest

end Crosswalk.Text
