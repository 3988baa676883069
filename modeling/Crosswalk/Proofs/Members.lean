import Crosswalk.Proofs.Value.Merge
import Mathlib.Data.List.Induction

/-!
# Records from entries

Entries that are put into a record one after the other add each name where it first occurs, and
leave each with its last value.

* `addName`: what putting does to the names of a record.
* `foldl_addName_nil`, `foldl_addName_eraseDups`: names added one after the other.
* `get?_reverse`: a record searched from its end.
* `names_foldl_put`, `get?_foldl_put`: the names and the values of a record into which entries are
  put.
* `map_names_get?`: a record is its names and what they lead to.
* `ofList_eq_self`: entries without a repeated name are the record that they build.
-/

namespace Crosswalk.Members

/-! ## Names -/

/-- A name added at the end of others unless it is among them. -/
def addName (names : List String) (name : String) : List String :=
  if name ∈ names then names else names ++ [name]

theorem mem_foldl_addName {name : String} {added names : List String} :
    name ∈ added.foldl addName names ↔ name ∈ names ∨ name ∈ added := by
  induction added generalizing names with
  | nil => simp
  | cons first added ih =>
    have hfirst : name ∈ addName names first ↔ name ∈ names ∨ name = first := by
      unfold addName
      split
      · next h => exact ⟨.inl, fun hname => hname.elim id fun heq => heq ▸ h⟩
      · simp
    rw [List.foldl_cons, ih, hfirst, List.mem_cons, or_assoc]

theorem nodup_foldl_addName {added names : List String} (h : names.Nodup) :
    (added.foldl addName names).Nodup := by
  induction added generalizing names with
  | nil => exact h
  | cons first added ih =>
    refine ih ?_
    unfold addName
    split
    · exact h
    · next hfirst => simpa [List.nodup_append, h] using fun a ha => ne_of_mem_of_not_mem ha hfirst

theorem foldl_addName_nil (names : List String) : names.foldl addName [] = names.eraseDups := by
  induction names using List.reverseRecOn with
  | nil => rfl
  | append_singleton names name ih =>
    rw [List.foldl_append, ih, List.eraseDups_append]
    by_cases h : name ∈ names <;> simp [addName, List.removeAll, List.eraseDups_cons, h]

/-- Names are added in the same way with and without those that repeat others. -/
theorem foldl_addName_eraseDups (added names : List String) :
    added.eraseDups.foldl addName names = added.foldl addName names := by
  rw [← foldl_addName_nil]
  induction added using List.reverseRecOn with
  | nil => rfl
  | append_singleton added name ih =>
    rw [List.foldl_append, List.foldl_append, ← ih]
    simp only [List.foldl_cons, List.foldl_nil]
    generalize added.foldl addName [] = distinct
    by_cases h : name ∈ distinct
    · have hmem : name ∈ distinct.foldl addName names := mem_foldl_addName.mpr (.inr h)
      rw [addName, addName, if_pos h, if_pos hmem]
    · rw [addName, if_neg h, List.foldl_append]
      rfl

/-! ## Records -/

variable {α : Type} {ms es : Members α} {name : String}

theorem get?_append : get? (ms ++ es) name = (get? ms name).or (get? es name) := List.lookup_append

/-- Without a repeated name it does not matter from which end a record is searched. -/
theorem get?_reverse (h : ms.names.Nodup) : get? ms.reverse name = get? ms name := by
  have hreverse : (names ms.reverse).Nodup := by
    rw [names, List.map_reverse]
    exact (List.reverse_perm _).nodup_iff.mpr h
  exact Option.ext fun a => by
    rw [get?_eq_some_iff hreverse, get?_eq_some_iff h, List.mem_reverse]

theorem names_foldl_put : (es.foldl (fun ms m => put m.1 m.2 ms) ms).names
    = es.names.foldl addName ms.names := by
  induction es generalizing ms with
  | nil => rfl
  | cons m es ih =>
    rw [List.foldl_cons, ih, names_put]
    rfl

theorem get?_foldl_put : get? (es.foldl (fun ms m => put m.1 m.2 ms) ms) name
    = (get? es.reverse name).or (get? ms name) := by
  induction es generalizing ms with
  | nil => rfl
  | cons m es ih =>
    obtain ⟨first, a⟩ := m
    rw [List.foldl_cons, ih, List.reverse_cons, get?_append, Option.or_assoc, get?_cons]
    by_cases h : first = name
    · subst h
      simp
    · rw [if_neg h, get?_put_of_ne (Ne.symm h), get?_nil, Option.none_or]

/-- A record is its names with what they lead to. -/
theorem map_names_get? (h : ms.names.Nodup) (other : α) :
    ms.names.map (fun name => (name, (ms.get? name).getD other)) = ms := by
  rw [names, List.map_map]
  conv => rhs; rw [← List.map_id ms]
  refine List.map_congr_left fun m hm => ?_
  have hget : ms.get? m.1 = some m.2 := (get?_eq_some_iff h).mpr hm
  simp [hget]

theorem put_of_not_mem (h : name ∉ ms.names) (a : α) : ms.put name a = ms ++ [(name, a)] := by
  induction ms with
  | nil => rfl
  | cons m ms ih =>
    obtain ⟨hfirst, hrest⟩ := not_or.mp fun hmem => h (List.mem_cons.mpr hmem)
    rw [put, if_neg (Ne.symm hfirst), ih hrest]
    rfl

theorem foldl_put_eq_append (h : (ms ++ es).names.Nodup) :
    es.foldl (fun ms m => put m.1 m.2 ms) ms = ms ++ es := by
  induction es generalizing ms with
  | nil => simp
  | cons m es ih =>
    have hnew : m.1 ∉ ms.names := by
      simp only [names, List.map_append, List.map_cons, List.nodup_append, List.mem_cons] at h
      exact fun hmem => h.2.2 _ hmem _ (.inl rfl) rfl
    rw [List.foldl_cons, put_of_not_mem hnew, ih (by simpa using h), List.append_assoc]
    rfl

/-- Entries without a repeated name are a record. -/
theorem ofList_eq_self (h : es.names.Nodup) : ofList es = es := by
  have hempty : names ([] ++ es) = es.names := rfl
  exact foldl_put_eq_append (hempty ▸ h)

end Crosswalk.Members
