import Crosswalk.Value.Merge

/-!
# What a merged value holds

Each member of a merged value is the merge of the members, so a patch can be looked at along one
list of names at a time, from map to map. A patch that holds something there prevails, and one that
holds nothing there leaves what was there.

* `follow`: what a list of names leads to, through maps only.
* `Distinct`: the names of every map differ. Records that are built with `Members.put` have this
  property, and a patch without it would be laid over a value more than once.
* `Silent`: a patch holds nothing at a list of names.
* `member_merge`, `follow_merge`: merging, member by member.
* `LaidOver`, `laidOver_merge`: what a patch decides and what it leaves.
-/

namespace Crosswalk

namespace Members

variable {α : Type} {name : String} {ms : Members α}

theorem mem_of_get? {a : α} (h : ms.get? name = some a) : (name, a) ∈ ms := by
  induction ms with
  | nil => simp at h
  | cons m ms ih =>
    obtain ⟨first, b⟩ := m
    rw [get?_cons] at h
    split at h
    · next hf => obtain rfl := Option.some.inj h; simp [hf]
    · exact List.mem_cons_of_mem _ (ih h)

theorem get?_eq_none (h : name ∉ ms.names) : ms.get? name = none := by
  cases hget : ms.get? name with
  | none => rfl
  | some a => exact absurd (List.mem_map_of_mem (mem_of_get? hget)) h

theorem get?_eq_some_iff {a : α} (h : ms.names.Nodup) :
    ms.get? name = some a ↔ (name, a) ∈ ms := by
  refine ⟨mem_of_get?, fun hmem => ?_⟩
  induction ms with
  | nil => cases hmem
  | cons m ms ih =>
    obtain ⟨first, b⟩ := m
    obtain ⟨hfirst, hrest⟩ := List.nodup_cons.mp h
    rw [get?_cons]
    rcases List.mem_cons.mp hmem with heq | hmem
    · obtain ⟨rfl, rfl⟩ := Prod.mk.inj heq
      rw [if_pos rfl]
    · have hname : name ∈ names ms := List.mem_map_of_mem hmem
      rw [if_neg fun heq : first = name => hfirst (heq ▸ hname), ih hrest hmem]

theorem names_put (name : String) (a : α) (ms : Members α) :
    names (put name a ms) = if name ∈ names ms then names ms else names ms ++ [name] := by
  induction ms with
  | nil => rfl
  | cons m ms ih =>
    obtain ⟨first, b⟩ := m
    have hnames : names ((first, b) :: ms) = first :: names ms := rfl
    by_cases h : first = name
    · simp [put, names, h]
    · have hput : names (put name a ((first, b) :: ms)) = first :: names (put name a ms) := by
        simp [put, h, names]
      rw [hput, ih, hnames]
      by_cases hm : name ∈ names ms <;> simp [hm, Ne.symm h]

theorem nodup_names_put {a : α} (h : ms.names.Nodup) : (ms.put name a).names.Nodup := by
  rw [names_put]
  split
  · exact h
  · next hname =>
    simpa [List.nodup_append, h] using fun other hother => ne_of_mem_of_not_mem hother hname

/-- A record that is built from entries repeats no name. -/
theorem nodup_names_ofList (entries : List (String × α)) : (ofList entries).names.Nodup := by
  suffices hfold : ∀ ms : Members α, ms.names.Nodup →
      (entries.foldl (fun ms m => put m.1 m.2 ms) ms).names.Nodup from hfold [] .nil
  induction entries with
  | nil => exact fun ms h => h
  | cons m entries ih => exact fun ms h => ih _ (nodup_names_put h)

end Members

namespace Value

def isMap : Value → Bool
  | map _ => true
  | _ => false

theorem isMap_iff {v : Value} : v.isMap = true ↔ ∃ ms, v = map ms := by
  cases v <;> simp [isMap]

/-- What a list of names leads to, each of them a member of the map before it; `undefined` if there
is none. -/
def follow (names : List String) (v : Value) : Value := names.foldl member v

/-- The names of every map, at any depth, differ. -/
inductive Distinct : Value → Prop
  | bare {v : Value} : v.items = [] → v.members = [] → Distinct v
  | array {xs : List Value} : (∀ x ∈ xs, Distinct x) → Distinct (array xs)
  | map {ms : Members Value} : ms.names.Nodup → (∀ m ∈ ms, Distinct m.2) → Distinct (map ms)

/-- Following a list of names comes to `undefined` or to a map without the next name. -/
inductive Silent : Value → List String → Prop
  | undefined (names : List String) : Silent undefined names
  | missing {name : String} {names : List String} {ms : Members Value} :
    ms.get? name = none → Silent (map ms) (name :: names)
  | member {name : String} {names : List String} {ms : Members Value} {v : Value} :
    ms.get? name = some v → Silent v names → Silent (map ms) (name :: names)

/-- A list of names leads from map to map; the last value on the way can be any. -/
def ThroughMaps : List String → Value → Prop
  | [], _ => True
  | name :: names, v => v.isMap ∧ ThroughMaps names (v.member name)

section Members

variable {v patch : Value} {name : String} {names : List String} {ms ps : Members Value}

theorem member_of_not_isMap (h : v.isMap = false) (name : String) : v.member name = undefined := by
  cases v <;> simp_all [isMap, Value.member, Value.members, Members.get?]

theorem member_of_not_mem_names (h : name ∉ ms.names) : (map ms).member name = undefined := by
  rw [Value.member, members_map, Members.get?_eq_none h, Option.getD_none]

theorem member_cons {other : String} {x : Value} : (map ((other, x) :: ms)).member name
    = if other = name then x else (map ms).member name := by
  simp only [Value.member, members_map, Members.get?_cons]
  split <;> rfl

theorem member_put_self {x : Value} : (map (ms.put name x)).member name = x := by
  simp [Value.member]

theorem member_put_of_ne {x : Value} {other : String} (h : other ≠ name) :
    (map (ms.put name x)).member other = (map ms).member other := by
  simp [Value.member, Members.get?_put_of_ne h]

@[simp] theorem follow_nil : follow [] v = v := rfl

@[simp] theorem follow_cons : follow (name :: names) v = follow names (v.member name) := rfl

theorem follow_append (front back : List String) :
    follow (front ++ back) v = follow back (follow front v) := List.foldl_append ..

@[simp] theorem follow_undefined (names : List String) : follow names undefined = undefined := by
  induction names with
  | nil => rfl
  | cons name names ih => rw [follow_cons, member_of_not_isMap rfl, ih]

theorem Distinct.member (h : v.Distinct) (name : String) : (v.member name).Distinct := by
  cases h with
  | bare _ hmembers => rw [Value.member, hmembers]; exact .bare rfl rfl
  | array _ => exact .bare rfl rfl
  | @map ms _ hall =>
    cases hget : ms.get? name with
    | none => simp only [Value.member, members_map, hget]; exact .bare rfl rfl
    | some x =>
      simp only [Value.member, members_map, hget]
      exact hall _ (Members.mem_of_get? hget)

theorem Distinct.nodup (h : Distinct (.map ms)) : ms.names.Nodup := by
  cases h with
  | bare _ hmembers => obtain rfl : ms = [] := hmembers; exact .nil
  | map hnodup _ => exact hnodup

/-! ## Member by member -/

@[simp] theorem merge_undefined (v : Value) : v.merge undefined = v := by rw [merge]

theorem merge_map_map : (map ms).merge (map ps) = map (mergeMembers ms ps) := by rw [merge]

/-- What is not a map is replaced by any defined patch. -/
theorem merge_of_not_isMap (h : v.isMap = false) (hp : patch ≠ undefined) :
    v.merge patch = patch := by
  cases patch with
  | undefined => exact absurd rfl hp
  | map ps => cases v <;> simp_all [isMap, merge]
  | _ => simp [merge]

/-- A defined patch that is not a map replaces anything. -/
theorem merge_scalar (h : patch.isMap = false) (hp : patch ≠ undefined) :
    v.merge patch = patch := by
  cases patch <;> simp_all [isMap, merge]

/-- A patch member is merged with the member of its name, `undefined` if there is none. -/
theorem patchMember_merge (hp : patch ≠ undefined) :
    patchMember (fun old => old.merge patch) name patch ms
      = ms.put name (((map ms).member name).merge patch) := by
  unfold patchMember
  rw [Value.member, members_map]
  cases hget : ms.get? name with
  | none =>
    rw [Option.getD_none, merge_of_not_isMap rfl hp]
    cases patch <;> simp_all
  | some old =>
    rw [Option.getD_some]
    by_cases ho : old.isMap
    · obtain ⟨os, rfl⟩ := isMap_iff.mp ho
      cases patch <;> simp_all [merge]
    · rw [merge_of_not_isMap (by simpa using ho) hp]
      cases old <;> cases patch <;> simp_all [isMap]

theorem member_mergeMembers (hps : ps.names.Nodup) : (map (mergeMembers ms ps)).member name
    = ((map ms).member name).merge ((map ps).member name) := by
  induction ps generalizing ms with
  | nil => rw [mergeMembers]; exact (merge_undefined _).symm
  | cons m ps ih =>
    obtain ⟨other, patch⟩ := m
    obtain ⟨hother, hrest⟩ := List.nodup_cons.mp hps
    have hnone : (map ps).member other = undefined := member_of_not_mem_names hother
    rw [mergeMembers, ih hrest, member_cons]
    by_cases hp : patch = undefined
    · subst hp
      simp only [patchMember]
      split
      · next hn => rw [← hn, hnone]
      · rfl
    · rw [patchMember_merge hp]
      by_cases hn : other = name
      · subst hn
        rw [hnone, merge_undefined, if_pos rfl, member_put_self]
      · rw [if_neg hn, member_put_of_ne (Ne.symm hn)]

/-- A member of a merged value is the merge of the members. -/
theorem member_merge (hd : patch.Distinct) (hmap : patch.isMap) (v : Value) (name : String) :
    (v.merge patch).member name = (v.member name).merge (patch.member name) := by
  obtain ⟨ps, rfl⟩ := isMap_iff.mp hmap
  by_cases hv : v.isMap
  · obtain ⟨ms, rfl⟩ := isMap_iff.mp hv
    rw [merge_map_map, member_mergeMembers hd.nodup]
  · have hv' : v.isMap = false := by simpa using hv
    rw [merge_of_not_isMap hv' (by simp), member_of_not_isMap hv']
    by_cases hp : (map ps).member name = undefined
    · rw [hp, merge_undefined]
    · rw [merge_of_not_isMap rfl hp]

end Members

/-! ## Along a list of names -/

section Names

variable {v patch : Value} {names : List String}

/-- Where the names lead through maps of the patch, the merged value holds the merge of what both
hold. -/
theorem follow_merge (hd : patch.Distinct) (h : ThroughMaps names patch) :
    follow names (v.merge patch) = (follow names v).merge (follow names patch) := by
  induction names generalizing v patch with
  | nil => rfl
  | cons name names ih =>
    rw [follow_cons, member_merge hd h.1, ih (hd.member name) h.2]
    rfl

theorem throughMaps_of_follow_ne_undefined (h : follow names v ≠ undefined) :
    ThroughMaps names v := by
  induction names generalizing v with
  | nil => trivial
  | cons name names ih =>
    refine ⟨?_, ih h⟩
    cases hv : v.isMap with
    | true => rfl
    | false => simp [member_of_not_isMap hv] at h

/-- A patch that is silent at a list of names leads through maps to `undefined` on the way. -/
theorem Silent.exists_append (h : Silent v names) :
    ∃ front back, names = front ++ back ∧ ThroughMaps front v ∧ follow front v = .undefined := by
  induction h with
  | undefined names => exact ⟨[], names, rfl, trivial, rfl⟩
  | @missing name names ms hget =>
    refine ⟨[name], names, rfl, ⟨rfl, trivial⟩, ?_⟩
    simp [Value.member, hget]
  | @member name names ms x hget _ ih =>
    obtain ⟨front, back, hnames, hmaps, hend⟩ := ih
    have hx : (Value.map ms).member name = x := by simp [Value.member, hget]
    refine ⟨name :: front, back, by rw [hnames]; rfl, ⟨rfl, ?_⟩, ?_⟩
    · rwa [hx]
    · rwa [follow_cons, hx]

/-- What a patch decides in the value that it was laid over, and what it leaves as it was. -/
structure LaidOver (patch before after : Value) : Prop where
  /-- A value of the patch that is not a map prevails. -/
  value : ∀ names, follow names patch ≠ undefined → (follow names patch).isMap = false →
    follow names after = follow names patch
  /-- There is a map where the patch has one. -/
  map : ∀ names, (follow names patch).isMap → (follow names after).isMap
  /-- Where the patch is silent, everything is as before. -/
  rest : ∀ names, Silent patch names → follow names after = follow names before

theorem isMap_merge (h : patch.isMap) : (v.merge patch).isMap := by
  obtain ⟨ps, rfl⟩ := isMap_iff.mp h
  cases v <;> simp [merge, isMap]

theorem laidOver_merge (hd : patch.Distinct) (v : Value) : LaidOver patch v (v.merge patch) where
  value names hdef hmap := by
    rw [follow_merge hd (throughMaps_of_follow_ne_undefined hdef), merge_scalar hmap hdef]
  map names hmap := by
    have hdef : follow names patch ≠ undefined := by
      intro hnone
      simp [hnone, isMap] at hmap
    rw [follow_merge hd (throughMaps_of_follow_ne_undefined hdef)]
    exact isMap_merge hmap
  rest names hsilent := by
    obtain ⟨front, back, rfl, hmaps, hend⟩ := hsilent.exists_append
    rw [follow_append, follow_append, follow_merge hd hmaps, hend, merge_undefined]

end Names

end Value

end Crosswalk
