import Crosswalk.Proofs.Members
import Crosswalk.Proofs.Value.Alike

/-!
# Merging again, and the order of merged members

A merged map has the members of the map in their places, and behind them the members that only the
patch holds, in the order of the patch. A patch that is merged for the second time meets its own
values everywhere, also where it was taken over as a whole with all that is `undefined` in it.

* `added`: the members of a patch that are new to a map.
* `mergeMembers_eq`: the merged members, one by one and in order.
* `merge_self`, `merge_merge`: a value merged into itself, and a patch merged twice.
* `merge_again`: both, with the order of the members at every depth.
-/

namespace Crosswalk.Value

/-- The members of a patch that hold something and have none of the names, in their order. -/
def added (names : List String) (ps : Members Value) : Members Value :=
  ps.filter fun p => p.2.isUndefined = false ∧ p.1 ∉ names

section Order

variable {ms ps : Members Value} {name : String}

theorem added_cons_of_mem {p : String × Value} {names : List String}
    (h : p.2.isUndefined ∨ p.1 ∈ names) : added names (p :: ps) = added names ps := by
  rw [added, List.filter_cons_of_neg (by simpa [or_iff_not_imp_left] using h)]
  rfl

theorem added_cons_of_not_mem {p : String × Value} {names : List String}
    (hp : p.2 ≠ undefined) (h : p.1 ∉ names) : added names (p :: ps) = p :: added names ps := by
  rw [added, List.filter_cons_of_pos (by simpa using ⟨hp, h⟩)]
  rfl

/-- A name that the patch does not have keeps none of its members away. -/
theorem added_append_singleton {names : List String} (h : name ∉ ps.names) :
    added (names ++ [name]) ps = added names ps := by
  refine List.filter_congr fun p hp => ?_
  have hne : p.1 ≠ name := fun heq => h (heq ▸ List.mem_map_of_mem hp)
  simp [hne]

/-- The names of a map stay where they are, and the new ones follow in the order of the patch. -/
theorem names_mergeMembers (hps : ps.names.Nodup) :
    (mergeMembers ms ps).names = ms.names ++ (added ms.names ps).names := by
  induction ps generalizing ms with
  | nil =>
    rw [mergeMembers]
    exact (List.append_nil _).symm
  | cons p ps ih =>
    obtain ⟨first, patch⟩ := p
    obtain ⟨hfirst, hrest⟩ := List.nodup_cons.mp hps
    rw [mergeMembers, ih hrest]
    by_cases hp : patch = undefined
    · subst hp
      rw [added_cons_of_mem (.inl rfl)]
      rfl
    · rw [patchMember_merge hp, Members.names_put]
      by_cases hmem : first ∈ ms.names
      · rw [if_pos hmem, added_cons_of_mem (.inr hmem)]
      · rw [if_neg hmem, added_append_singleton hfirst, added_cons_of_not_mem hp hmem,
          List.append_assoc]
        rfl

theorem nodup_names_mergeMembers (hms : ms.names.Nodup) (hps : ps.names.Nodup) :
    (mergeMembers ms ps).names.Nodup := by
  rw [names_mergeMembers hps]
  refine List.nodup_append.mpr ⟨hms, hps.sublist (List.filter_sublist.map Prod.fst), ?_⟩
  rintro a ha b hb rfl
  obtain ⟨p, hp, rfl⟩ := List.mem_map.mp hb
  simp only [added, List.mem_filter, decide_eq_true_eq] at hp
  exact hp.2.2 ha

/-- The members of a merged map: those of the map in their places, each merged with what the patch
has for it, and then the new ones as they are. -/
theorem mergeMembers_eq (hms : ms.names.Nodup) (hps : ps.names.Nodup) : mergeMembers ms ps
    = ms.map (fun m => (m.1, m.2.merge ((map ps).member m.1))) ++ added ms.names ps := by
  have hall := Members.map_names_get? (nodup_names_mergeMembers hms hps) undefined
  have hmember (name : String) : ((mergeMembers ms ps).get? name).getD undefined
      = ((map ms).member name).merge ((map ps).member name) := member_mergeMembers hps
  simp only [hmember] at hall
  rw [← hall, names_mergeMembers hps, List.map_append, Members.names, Members.names, List.map_map,
    List.map_map]
  congr 1
  · refine List.map_congr_left fun m hm => ?_
    rw [Function.comp_apply, member_of_mem hms hm]
  · conv => rhs; rw [← List.map_id (added (List.map Prod.fst ms) ps)]
    refine List.map_congr_left fun p hp => ?_
    simp only [added, List.mem_filter, decide_eq_true_eq, isUndefined_eq_false_iff] at hp
    obtain ⟨hmem, hdef, hnew⟩ := hp
    rw [Function.comp_apply, member_of_not_mem_names hnew, member_of_mem hps hmem,
      merge_of_not_isMap rfl hdef, id]

end Order

/-! ## Merging again -/

section Again

variable {v patch : Value} {ms ps : Members Value}

theorem added_eq_nil {names : List String}
    (h : ∀ p ∈ ps, p.2 ≠ undefined → p.1 ∈ names) : added names ps = [] :=
  List.filter_eq_nil_iff.mpr fun p hp => by simpa using h p hp

/-- What a map holds for a name is `undefined` or one of its members. -/
theorem member_cases (ms : Members Value) (name : String) :
    (map ms).member name = undefined ∨ ∃ m ∈ ms, (map ms).member name = m.2 := by
  rw [Value.member, members_map]
  cases hget : ms.get? name with
  | none => exact .inl rfl
  | some x => exact .inr ⟨(name, x), Members.mem_of_get? hget, rfl⟩

theorem Distinct.of_mem (h : Distinct (.map ms)) {m : String × Value} (hm : m ∈ ms) :
    m.2.Distinct := by
  have hmember := h.member m.1
  rwa [member_of_mem h.nodup hm] at hmember

theorem Distinct.follow (h : v.Distinct) (names : List String) : (v.follow names).Distinct := by
  induction names generalizing v with
  | nil => exact h
  | cons name names ih => exact ih (h.member name)

theorem merge_self (h : v.Distinct) : v.merge v = v := by
  induction v using Value.induct with
  | undefined => exact merge_undefined _
  | null | bool _ | int _ | float _ | string _ | array _ _ => exact merge_scalar rfl (by simp)
  | map ms ih =>
    have hnew : added (Members.names ms) ms = [] :=
      added_eq_nil fun m hm _ => List.mem_map_of_mem hm
    rw [merge_map_map, mergeMembers_eq h.nodup h.nodup, hnew, List.append_nil]
    conv => rhs; rw [← List.map_id ms]
    refine congrArg map (List.map_congr_left fun m hm => ?_)
    rw [member_of_mem h.nodup hm, ih m hm (h.of_mem hm), id]

/-- What a merged map holds is left alone by the patch if each of the two merged values is. -/
theorem mergeMembers_mergeMembers (hms : ms.names.Nodup) (hps : ps.names.Nodup)
    (h : ∀ name, (((map ms).member name).merge ((map ps).member name)).merge
      ((map ps).member name) = ((map ms).member name).merge ((map ps).member name)) :
    mergeMembers (mergeMembers ms ps) ps = mergeMembers ms ps := by
  have hnodup := nodup_names_mergeMembers hms hps
  have hnew : added (mergeMembers ms ps).names ps = [] := by
    refine added_eq_nil fun p hp hdef => ?_
    rw [names_mergeMembers hps, List.mem_append]
    by_cases hmem : p.1 ∈ ms.names
    · exact .inl hmem
    · exact .inr (List.mem_map_of_mem (List.mem_filter.mpr ⟨hp, by simpa using ⟨hdef, hmem⟩⟩))
  rw [mergeMembers_eq hnodup hps, hnew, List.append_nil]
  conv => rhs; rw [← List.map_id (mergeMembers ms ps)]
  refine List.map_congr_left fun m hm => ?_
  have hvalue := member_of_mem hnodup hm
  rw [member_mergeMembers hps] at hvalue
  rw [← hvalue, h, hvalue, id]

/-- A patch that has been merged finds nothing to change. -/
theorem merge_merge (hv : v.Distinct) (hp : patch.Distinct) :
    (v.merge patch).merge patch = v.merge patch := by
  induction patch using Value.induct generalizing v with
  | undefined => rw [merge_undefined]
  | null | bool _ | int _ | float _ | string _ | array _ _ =>
    rw [merge_scalar rfl (by simp), merge_scalar rfl (by simp)]
  | map ps ih =>
    cases hmap : v.isMap with
    | false => rw [merge_of_not_isMap hmap (by simp), merge_self hp]
    | true =>
      obtain ⟨ms, rfl⟩ := isMap_iff.mp hmap
      rw [merge_map_map, merge_map_map, mergeMembers_mergeMembers hv.nodup hp.nodup]
      intro name
      rcases member_cases ps name with hnone | ⟨p, hmem, hvalue⟩
      · rw [hnone, merge_undefined]
      · rw [hvalue]
        exact ih p hmem (hv.member name) (hp.of_mem hmem)

/-- Merging a patch again changes nothing, nor does merging a value into itself. Wherever a list of
names leads to a map on both sides, the names of the merged map are those of the map in their order
and then the new ones of the patch in theirs: each name of the map keeps its place, with the merge
of what both hold for it, and what is new comes as it is. -/
theorem merge_again (hv : v.Distinct) (hp : patch.Distinct) :
    (v.merge patch).merge patch = v.merge patch ∧ v.merge v = v ∧
      ∀ (names : List String) (ms ps : Members Value),
        follow names v = map ms → follow names patch = map ps →
        ∃ rs : Members Value, follow names (v.merge patch) = map rs ∧
          rs.names = ms.names ++ (added ms.names ps).names ∧
          rs = ms.map (fun m => (m.1, m.2.merge ((map ps).member m.1)))
            ++ added ms.names ps := by
  refine ⟨merge_merge hv hp, merge_self hv, fun names ms ps hms hps => ?_⟩
  have hthrough : ThroughMaps names patch :=
    throughMaps_of_follow_ne_undefined (by rw [hps]; simp)
  have hmsNodup : ms.names.Nodup := (hms ▸ hv.follow names : Distinct (map ms)).nodup
  have hpsNodup : ps.names.Nodup := (hps ▸ hp.follow names : Distinct (map ps)).nodup
  refine ⟨mergeMembers ms ps, ?_, names_mergeMembers hpsNodup,
    mergeMembers_eq hmsNodup hpsNodup⟩
  rw [follow_merge hp hthrough, hms, hps, merge_map_map]

/-! ## A team and its new members -/

/-- A team with a place that is not filled. -/
def team : Value :=
  map [("lead", map [("name", string "Ada"), ("since", int 1843)]), ("second", undefined),
    ("size", int 2)]

/-- A new year and a room for the lead, no size, and a guest who is taken over as a whole. -/
def teamPatch : Value :=
  map [("guest", map [("name", string "Charles"), ("since", undefined)]), ("size", undefined),
    ("lead", map [("room", string "7"), ("since", int 1833)])]

theorem team_distinct : team.Distinct := by
  refine .map (by decide) ?_
  simp only [List.forall_mem_cons]
  refine ⟨.map (by decide) ?_, .bare rfl rfl, .bare rfl rfl, by simp⟩
  simp only [List.forall_mem_cons]
  exact ⟨.bare rfl rfl, .bare rfl rfl, by simp⟩

theorem teamPatch_distinct : teamPatch.Distinct := by
  refine .map (by decide) ?_
  simp only [List.forall_mem_cons]
  refine ⟨.map (by decide) ?_, .bare rfl rfl, .map (by decide) ?_, by simp⟩
  · simp only [List.forall_mem_cons]
    exact ⟨.bare rfl rfl, .bare rfl rfl, by simp⟩
  · simp only [List.forall_mem_cons]
    exact ⟨.bare rfl rfl, .bare rfl rfl, by simp⟩

/-- The lead of the team keeps the year in its place and gets the room behind it. -/
theorem merge_again_team : team.Distinct ∧ teamPatch.Distinct ∧
    (team.merge teamPatch).merge teamPatch = team.merge teamPatch ∧ team.merge team = team ∧
    ∃ rs : Members Value, follow ["lead"] (team.merge teamPatch) = map rs ∧
      rs.names = ["name", "since", "room"] ∧
      rs = [("name", string "Ada"), ("since", int 1833), ("room", string "7")] := by
  have hmerged := merge_again team_distinct teamPatch_distinct
  refine ⟨team_distinct, teamPatch_distinct, hmerged.1, hmerged.2.1, ?_⟩
  obtain ⟨rs, hfollow, hnames, hrs⟩ := hmerged.2.2 ["lead"] _ _ rfl rfl
  refine ⟨rs, hfollow, hnames.trans (by decide), hrs.trans ?_⟩
  simp [added, Value.member, Members.get?, List.lookup_cons, merge, isUndefined, Members.names]

end Again

end Crosswalk.Value
