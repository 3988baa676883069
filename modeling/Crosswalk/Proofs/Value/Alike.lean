import Crosswalk.Proofs.Value.Merge
import Mathlib.Data.List.Forall2
import Mathlib.Data.List.Nodup

/-!
# Values up to the order of members

Two values are *alike* if they differ at most in the order of members, at any depth: arrays are
alike position by position, and maps if they have the same names and alike values under each of
them.

* `Alike`: the relation, an equivalence (`Alike.symm`, `Alike.trans`).
* `Alike.items`, `Alike.member`, `Alike.names_perm`: the views of alike values.
* `alike_map_iff`: alike maps have the same members in some order.
* `Alike.put`, `alike_put_put`: members put into alike maps, in either order.
* `Alike.merge`: a patch laid over alike values.
-/

namespace Crosswalk

/-! ## Names -/

namespace Members

variable {α : Type} {name : String} {a : α} {ms ns : Members α}

/-- One name put into records with the same names. -/
theorem names_put_perm {b : α} (h : (names ms).Perm (names ns)) :
    (names (put name a ms)).Perm (names (put name b ns)) := by
  rw [names_put, names_put]
  by_cases hm : name ∈ names ms
  · rw [if_pos hm, if_pos (h.mem_iff.mp hm)]
    exact h
  · rw [if_neg hm, if_neg fun hn => hm (h.mem_iff.mpr hn)]
    exact h.append_right _

/-- Two names put one after the other, in either order. -/
theorem names_put_put_perm {other : String} {b : α} (hne : name ≠ other) :
    (names (put other b (put name a ms))).Perm (names (put name a (put other b ms))) := by
  simp only [names_put]
  by_cases hm : name ∈ names ms <;> by_cases ho : other ∈ names ms <;> simp [hm, ho, hne, hne.symm]
  exact List.Perm.append_left _ (.swap _ _ _)

end Members

namespace Value

/-- Two values that differ at most in the order of members. -/
inductive Alike : Value → Value → Prop
  | refl (v : Value) : Alike v v
  | array {xs ys : List Value} : xs.length = ys.length →
    (∀ i : Nat, Alike (xs[i]?.getD undefined) (ys[i]?.getD undefined)) → Alike (array xs) (array ys)
  | map {ms ns : Members Value} : ms.names.Perm ns.names →
    (∀ name, Alike ((map ms).member name) ((map ns).member name)) → Alike (map ms) (map ns)

variable {u v w : Value}

theorem Alike.symm (h : Alike v w) : Alike w v := by
  induction h with
  | refl v => exact .refl v
  | array hlen _ ih => exact .array hlen.symm ih
  | map hnames _ ih => exact .map hnames.symm ih

theorem Alike.trans (h : Alike u v) (h' : Alike v w) : Alike u w := by
  induction h generalizing w with
  | refl v => exact h'
  | array hlen h ih =>
    cases h' with
    | refl => exact .array hlen h
    | array hlen' h' => exact .array (hlen.trans hlen') fun i => ih i (h' i)
  | map hnames h ih =>
    cases h' with
    | refl => exact .map hnames h
    | map hnames' h' => exact .map (hnames.trans hnames') fun name => ih name (h' name)

/-! ## Views of alike values -/

/-- Lists of alike values, position by position. -/
theorem forall₂_alike_iff {xs ys : List Value} : List.Forall₂ Alike xs ys ↔
    xs.length = ys.length ∧
      ∀ i : Nat, Alike (xs[i]?.getD undefined) (ys[i]?.getD undefined) := by
  constructor
  · intro h
    refine ⟨h.length_eq, fun i => ?_⟩
    induction h generalizing i with
    | nil => exact .refl _
    | cons hxy _ ih =>
      cases i with
      | zero => exact hxy
      | succ i => exact ih i
  · rintro ⟨hlen, h⟩
    refine List.forall₂_iff_get.mpr ⟨hlen, fun i hx hy => ?_⟩
    have hi := h i
    rwa [List.getElem?_eq_getElem hx, List.getElem?_eq_getElem hy] at hi

theorem alike_array_iff {xs : List Value} :
    Alike (array xs) w ↔ ∃ ys, w = array ys ∧ List.Forall₂ Alike xs ys := by
  constructor
  · intro h
    cases h with
    | refl => exact ⟨xs, rfl, List.forall₂_same.mpr fun x _ => .refl x⟩
    | array hlen h => exact ⟨_, rfl, forall₂_alike_iff.mpr ⟨hlen, h⟩⟩
  · rintro ⟨ys, rfl, h⟩
    obtain ⟨hlen, h⟩ := forall₂_alike_iff.mp h
    exact .array hlen h

theorem Alike.items (h : Alike v w) : List.Forall₂ Alike v.items w.items := by
  cases h with
  | refl => exact List.forall₂_same.mpr fun x _ => .refl x
  | array hlen h => exact forall₂_alike_iff.mpr ⟨hlen, h⟩
  | map _ _ => exact .nil

theorem Alike.member (h : Alike v w) (name : String) :
    Alike (v.member name) (w.member name) := by
  cases h with
  | refl => exact .refl _
  | array _ _ => exact .refl _
  | map _ h => exact h name

theorem Alike.names_perm (h : Alike v w) : v.members.names.Perm w.members.names := by
  cases h with
  | refl => exact .refl _
  | array _ _ => exact .refl _
  | map hnames _ => exact hnames

/-! ## Members in another order -/

theorem member_of_mem {m : String × Value} {ms : Members Value} (hnodup : ms.names.Nodup)
    (hm : m ∈ ms) : (map ms).member m.1 = m.2 := by
  rw [Value.member, members_map, (Members.get?_eq_some_iff hnodup).mpr hm]
  rfl

theorem member_of_perm {ms ns : Members Value} (h : ms.Perm ns) (hms : ms.names.Nodup)
    (name : String) : (map ms).member name = (map ns).member name := by
  have hns : ns.names.Nodup := (h.map Prod.fst).nodup_iff.mp hms
  have hget : ms.get? name = ns.get? name := Option.ext fun x => by
    rw [Members.get?_eq_some_iff hms, Members.get?_eq_some_iff hns, h.mem_iff]
  rw [Value.member, Value.member, members_map, members_map, hget]

theorem alike_member_of_forall₂ {ms ns : Members Value}
    (h : List.Forall₂ (fun m n => m.1 = n.1 ∧ Alike m.2 n.2) ms ns) (name : String) :
    Alike ((map ms).member name) ((map ns).member name) := by
  induction h with
  | nil => exact .refl _
  | @cons m n ms ns hmn _ ih =>
    obtain ⟨first, x⟩ := m
    obtain ⟨_, y⟩ := n
    obtain ⟨rfl, hxy⟩ := hmn
    rw [member_cons, member_cons]
    split
    · exact hxy
    · exact ih

/-- Two maps without repeated names are alike if and only if one is a rearrangement of the other,
with an alike value under each name. -/
theorem alike_map_iff {ms ns : Members Value} (hms : ms.names.Nodup) (hns : ns.names.Nodup) :
    Alike (map ms) (map ns) ↔ ∃ ns' : Members Value, ns'.Perm ns ∧
      List.Forall₂ (fun m n => m.1 = n.1 ∧ Alike m.2 n.2) ms ns' := by
  constructor
  · intro h
    have hnames : ms.names.Perm ns.names := h.names_perm
    refine ⟨ms.map fun m => (m.1, (map ns).member m.1), ?perm, ?alike⟩
    case alike =>
      refine List.forall₂_map_right_iff.mpr (List.forall₂_same.mpr fun m hm => ⟨rfl, ?_⟩)
      have hmember := h.member m.1
      rwa [member_of_mem hms hm] at hmember
    case perm =>
      refine (List.perm_ext_iff_of_nodup ?_ (List.Nodup.of_map Prod.fst hns)).mpr fun n => ?_
      · refine List.Nodup.of_map Prod.fst ?_
        rwa [List.map_map]
      constructor
      · intro hn
        obtain ⟨m, hm, rfl⟩ := List.mem_map.mp hn
        obtain ⟨n, hn, hname⟩ := List.mem_map.mp (hnames.mem_iff.mp (List.mem_map_of_mem hm))
        rw [← hname, member_of_mem hns hn]
        exact hn
      · intro hn
        obtain ⟨m, hm, hname⟩ := List.mem_map.mp (hnames.mem_iff.mpr (List.mem_map_of_mem hn))
        exact List.mem_map.mpr ⟨m, hm, by rw [hname, member_of_mem hns hn]⟩
  · rintro ⟨ns', hperm, hall⟩
    have hnames : List.Forall₂ (· = ·) ms.names ns'.names :=
      List.forall₂_map_left_iff.mpr (List.forall₂_map_right_iff.mpr (hall.imp fun _ _ h => h.1))
    rw [List.forall₂_eq_eq_eq] at hnames
    refine .map (hnames ▸ hperm.map Prod.fst) fun name => ?_
    rw [← member_of_perm hperm (hnames ▸ hms)]
    exact alike_member_of_forall₂ hall name

/-! ## Members put into alike values -/

section Put

variable {name other : String} {x y : Value} {ms : Members Value}

/-- Alike values put under one name into the members of alike values. -/
theorem Alike.put (h : Alike v w) (hx : Alike x y) :
    Alike (.map (v.members.put name x)) (.map (w.members.put name y)) := by
  refine .map (Members.names_put_perm h.names_perm) fun other => ?_
  by_cases ho : other = name
  · rw [ho, member_put_self, member_put_self]
    exact hx
  · rw [member_put_of_ne ho, member_put_of_ne ho]
    exact h.member other

/-- Two members put one after the other, in either order. -/
theorem alike_put_put (hne : name ≠ other) :
    Alike (map ((ms.put name x).put other y)) (map ((ms.put other y).put name x)) := by
  refine .map (Members.names_put_put_perm hne) fun third => ?_
  by_cases hn : third = name
  · rw [hn, member_put_of_ne hne, member_put_self, member_put_self]
    exact .refl x
  · by_cases ho : third = other
    · rw [ho, member_put_self, member_put_of_ne hne.symm, member_put_self]
      exact .refl y
    · rw [member_put_of_ne ho, member_put_of_ne hn, member_put_of_ne hn, member_put_of_ne ho]
      exact .refl _

end Put

/-! ## Patches laid over alike values -/

section Merge

variable {patch : Value} {ms ns ps : Members Value}

theorem Alike.isMap_eq (h : Alike v w) : v.isMap = w.isMap := by
  cases h <;> rfl

theorem Alike.mergeMembers (hps : ∀ m ∈ ps, ∀ v w, Alike v w → Alike (v.merge m.2) (w.merge m.2))
    (h : Alike (.map ms) (.map ns)) :
    Alike (.map (mergeMembers ms ps)) (.map (mergeMembers ns ps)) := by
  induction ps generalizing ms ns with
  | nil => rwa [Value.mergeMembers, Value.mergeMembers]
  | cons m ps ih =>
    obtain ⟨name, patch⟩ := m
    rw [Value.mergeMembers, Value.mergeMembers]
    refine ih (fun m hm => hps m (by simp [hm])) ?_
    by_cases hp : patch = .undefined
    · subst hp
      exact h
    · rw [patchMember_merge hp, patchMember_merge hp]
      exact h.put (hps (name, patch) (by simp) _ _ (h.member name))

/-- A patch laid over alike values gives alike values. -/
theorem Alike.merge (h : Alike v w) : Alike (v.merge patch) (w.merge patch) := by
  induction patch using Value.induct generalizing v w with
  | undefined => rwa [merge_undefined, merge_undefined]
  | map ps ih =>
    cases hv : v.isMap with
    | true =>
      obtain ⟨ms, rfl⟩ := isMap_iff.mp hv
      obtain ⟨ns, rfl⟩ := isMap_iff.mp (h.isMap_eq ▸ hv)
      rw [merge_map_map, merge_map_map]
      exact Alike.mergeMembers (fun m hm v w => ih m hm) h
    | false =>
      rw [merge_of_not_isMap hv (by simp), merge_of_not_isMap (h.isMap_eq ▸ hv) (by simp)]
      exact .refl _
  | _ =>
    rw [merge_scalar rfl (by simp), merge_scalar rfl (by simp)]
    exact .refl _

end Merge

end Value

end Crosswalk
