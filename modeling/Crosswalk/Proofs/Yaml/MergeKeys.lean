import Crosswalk.Proofs.Members
import Crosswalk.Yaml.Basic

/-!
# Merge keys in YAML mappings

A mapping inherits the entries of the mappings that its merge keys lend it. An earlier lender wins
over a later one, and the entries of the mapping itself win over all lenders.

What a lender gives are its entries as they stand. Its own merge keys are not followed but passed on
as a member `<<`, and of two keys with one text the first is taken, while the value of the lender
has the last. So what is inherited are the members of the lenders' values where no lender has merge
keys of its own or two keys with one text, and not in general.

* `sources`, `explicit`: the mappings that lend to a mapping, and its own entries.
* `inherited`: the members that lent entries and own ones make together.
* `assemble_eq_inherited`: what is assembled is what is inherited.
* `held_eq_inherited`, `mem_names_held`: the members of a value and their names.
* `Settled`, `held_of_settled`: a mapping whose value has its entries as they stand.
* `merge_keys`: what the value of a mapping holds.
-/

namespace Crosswalk.Yaml

/-! ## What a mapping is given -/

/-- The mappings that a value lends: itself, or those among its elements. -/
def lentBy : Yaml → List (List (Yaml × Yaml))
  | mapping es => [es]
  | sequence ys => ys.filterMap fun y => match y with
    | mapping es => some es
    | _ => none
  | _ => []

/-- The mappings that lend their entries to a mapping with given entries, in their order. -/
def sources (es : List (Yaml × Yaml)) : List (List (Yaml × Yaml)) :=
  (es.filter lends).flatMap fun e => lentBy e.2

/-- Entries as they stand, merge keys like any other. -/
def asTheyStand (es : List (Yaml × Yaml)) : List (String × Value) :=
  es.map fun e => (e.1.keyText, e.2.toValue)

/-- The entries of a mapping that are its own and not lent to it. -/
def explicit (es : List (Yaml × Yaml)) : List (String × Value) :=
  asTheyStand (es.filter fun e => !lends e)

/-- The members of the value of a mapping with given entries. -/
def held (es : List (Yaml × Yaml)) : Members Value := (toValue (mapping es)).members

/-- The members that entries make together: each name where it is first given, with the last of its
own values, or else with the first that is lent. -/
def inherited (lent own : List (String × Value)) : Members Value :=
  (Members.names (lent ++ own)).eraseDups.map fun name =>
    (name, ((Members.get? own.reverse name).or (Members.get? lent name)).getD .undefined)

/-- No entry of a mapping lends, and no two of its keys have one text. -/
def Settled (es : List (Yaml × Yaml)) : Prop :=
  (∀ e ∈ es, lends e = false) ∧ (es.map fun e => e.1.keyText).Nodup

instance (es : List (Yaml × Yaml)) : Decidable (Settled es) := inferInstanceAs (Decidable (_ ∧ _))

section Entries

variable {es : List (Yaml × Yaml)} {lent own : List (String × Value)} {name : String}

theorem entriesOf_mapping (es : List (Yaml × Yaml)) : entriesOf (mapping es) = asTheyStand es := by
  rw [entriesOf, asTheyStand]

theorem lenders_eq (y : Yaml) : lenders y = (lentBy y).flatMap asTheyStand := by
  cases y with
  | mapping es => simp [lenders, entriesOf_mapping, lentBy]
  | sequence ys =>
    rw [lenders, lentBy]
    induction ys with
    | nil => rfl
    | cons y ys ih =>
      rw [List.flatMap_cons, ih]
      cases y <;> simp [entriesOf, asTheyStand]
  | _ => simp [lenders, entriesOf, lentBy]

theorem lent_eq (es : List (Yaml × Yaml)) :
    (es.flatMap fun e => if lends e then lenders e.2 else [])
      = (sources es).flatMap asTheyStand := by
  induction es with
  | nil => rfl
  | cons e es ih =>
    rw [List.flatMap_cons, ih]
    cases he : lends e <;> simp [sources, he, lenders_eq]

theorem own_eq (es : List (Yaml × Yaml)) :
    (es.flatMap fun e => if lends e then [] else [(e.1.keyText, e.2.toValue)]) = explicit es := by
  induction es with
  | nil => rfl
  | cons e es ih =>
    rw [List.flatMap_cons, ih]
    cases he : lends e <;> simp [explicit, asTheyStand, he]

theorem toValue_mapping (es : List (Yaml × Yaml)) : toValue (mapping es)
    = .map (assemble ((sources es).flatMap asTheyStand) (explicit es)) := by
  rw [toValue, lent_eq, own_eq]

/-! ## Lent and own entries together -/

theorem names_foldl_putNew {ms : Members Value} :
    (lent.foldl putNew ms).names = (Members.names lent).foldl Members.addName ms.names := by
  induction lent generalizing ms with
  | nil => rfl
  | cons m lent ih =>
    have hnames : (putNew ms m).names = Members.addName ms.names m.1 := by
      unfold putNew
      split
      · next v hget =>
        have hmem : m.1 ∈ ms.names := List.mem_map.mpr ⟨_, Members.mem_of_get? hget, rfl⟩
        exact (if_pos hmem).symm
      · exact Members.names_put _ _ _
    rw [List.foldl_cons, ih, hnames]
    rfl

theorem get?_foldl_putNew {ms : Members Value} : Members.get? (lent.foldl putNew ms) name
    = (Members.get? ms name).or (Members.get? lent name) := by
  induction lent generalizing ms with
  | nil => simp
  | cons m lent ih =>
    obtain ⟨first, v⟩ := m
    rw [List.foldl_cons, ih, Members.get?_cons]
    unfold putNew
    by_cases hname : first = name
    · subst hname
      cases hget : ms.get? first <;> simp [hget]
    · cases hget : ms.get? first <;> simp [hname, Members.get?_put_of_ne (Ne.symm hname)]

theorem names_assemble (lent own : List (String × Value)) :
    (assemble lent own).names = (Members.names (lent ++ own)).eraseDups := by
  rw [assemble, Members.names_foldl_put, names_foldl_putNew, Members.ofList,
    Members.names_foldl_put]
  simp only [Members.names, List.map_nil, List.map_append]
  rw [Members.foldl_addName_nil (own.map Prod.fst), Members.foldl_addName_eraseDups,
    ← List.foldl_append, Members.foldl_addName_nil]

theorem get?_assemble (lent own : List (String × Value)) (name : String) :
    (assemble lent own).get? name
      = (Members.get? own.reverse name).or (Members.get? lent name) := by
  have hown : Members.get? (Members.ofList own).reverse name = Members.get? own.reverse name := by
    rw [Members.get?_reverse (Members.nodup_names_ofList own), Members.ofList,
      Members.get?_foldl_put, Members.get?_nil, Option.or_none]
  rw [assemble, Members.get?_foldl_put, get?_foldl_putNew, hown, Members.get?_nil, Option.none_or]

theorem assemble_eq_inherited (lent own : List (String × Value)) :
    assemble lent own = inherited lent own := by
  have hnodup : (assemble lent own).names.Nodup := by
    rw [names_assemble, ← Members.foldl_addName_nil]
    exact Members.nodup_foldl_addName .nil
  rw [← Members.map_names_get? hnodup .undefined, names_assemble, inherited]
  exact List.map_congr_left fun name _ => by rw [get?_assemble]

/-! ## Settled mappings -/

theorem Settled.sources_eq (h : Settled es) : sources es = [] := by
  rw [sources, List.filter_eq_nil_iff.mpr fun e he => by simp [h.1 e he]]
  rfl

theorem Settled.explicit_eq (h : Settled es) : explicit es = asTheyStand es := by
  rw [explicit, List.filter_eq_self.mpr fun e he => by simp [h.1 e he]]

/-- The value of a settled mapping has its entries as they stand. -/
theorem held_of_settled (h : Settled es) : held es = asTheyStand es := by
  have hnodup : (Members.names (asTheyStand es)).Nodup := by
    rw [Members.names, asTheyStand, List.map_map]
    exact h.2
  rw [held, toValue_mapping, h.sources_eq, h.explicit_eq, Value.members_map, assemble,
    Members.ofList_eq_self hnodup]
  exact Members.ofList_eq_self hnodup

theorem held_eq_inherited (es : List (Yaml × Yaml)) :
    held es = inherited ((sources es).flatMap asTheyStand) (explicit es) := by
  rw [held, toValue_mapping, Value.members_map, assemble_eq_inherited]

theorem mem_names_held : name ∈ (held es).names ↔
    (∃ e ∈ es, lends e = false ∧ e.1.keyText = name) ∨
      ∃ ls ∈ sources es, ∃ e ∈ ls, e.1.keyText = name := by
  have hown : name ∈ Members.names (explicit es) ↔
      ∃ e ∈ es, lends e = false ∧ e.1.keyText = name := by
    simp only [Members.names, explicit, asTheyStand, List.map_map, List.mem_map, List.mem_filter]
    simp [and_assoc]
  have hlent : name ∈ Members.names ((sources es).flatMap asTheyStand) ↔
      ∃ ls ∈ sources es, ∃ e ∈ ls, e.1.keyText = name := by
    simp [Members.names, asTheyStand]
  rw [held, toValue_mapping, Value.members_map, names_assemble, List.mem_eraseDups,
    Members.names, List.map_append, List.mem_append, or_comm]
  exact or_congr hown hlent

/-- The value of a mapping holds its own entries and those of its lenders as they stand. Where the
lenders are settled, these are the members of their values. No lender's name is lost but a merge key
of a lender, even one that lends, is left as a member `<<`. -/
theorem merge_keys (es : List (Yaml × Yaml)) :
    held es = inherited ((sources es).flatMap asTheyStand) (explicit es) ∧
      ((∀ ls ∈ sources es, Settled ls) →
        held es = inherited ((sources es).flatMap held) (explicit es)) ∧
      ∀ name, name ∈ (held es).names ↔
        (∃ e ∈ es, lends e = false ∧ e.1.keyText = name) ∨
          ∃ ls ∈ sources es, ∃ e ∈ ls, e.1.keyText = name := by
  refine ⟨held_eq_inherited es, fun hsettled => ?_, fun _ => mem_names_held⟩
  have hlent : (sources es).map asTheyStand = (sources es).map held :=
    List.map_congr_left fun ls hls => (held_of_settled (hsettled ls hls)).symm
  rw [held_eq_inherited, List.flatMap_def, List.flatMap_def, hlent]

end Entries

/-- A shift that takes what it does not say from two others. -/
def shiftEntries : List (Yaml × Yaml) :=
  [(string "<<", sequence [
      mapping [(string "start", string "early"), (string "place", string "desk")],
      mapping [(string "start", string "late"), (string "crew", string "night")]]),
    (string "place", string "door")]

theorem merge_keys_shiftEntries : (∀ ls ∈ sources shiftEntries, Settled ls) ∧
    held shiftEntries = inherited ((sources shiftEntries).flatMap held) (explicit shiftEntries) ∧
    held shiftEntries
      = [("start", .string "early"), ("place", .string "door"), ("crew", .string "night")] := by
  have hsettled : ∀ ls ∈ sources shiftEntries, Settled ls := by decide
  obtain ⟨hheld, htransitive, -⟩ := merge_keys shiftEntries
  refine ⟨hsettled, htransitive hsettled, ?_⟩
  rw [hheld]
  simp [shiftEntries, sources, lentBy, lends, explicit, asTheyStand, keyText, toValue, inherited,
    Members.names, Members.get?_cons, List.eraseDups_cons]

/-- A mapping that inherits from one that itself inherits does not have what the value of its lender
has: it loses the entry `x`. -/
theorem not_merge_keys_chain : ¬ ∀ es : List (Yaml × Yaml),
    held es = inherited ((sources es).flatMap held) (explicit es) := by
  intro hall
  let lender : List (Yaml × Yaml) :=
    [(string "<<", mapping [(string "x", string "a")]), (string "y", string "b")]
  let es : List (Yaml × Yaml) := [(string "<<", mapping lender), (string "z", string "c")]
  have hnames : (held es).names = ["<<", "y", "z"] := by
    rw [held_eq_inherited]
    simp [es, lender, sources, lentBy, lends, explicit, asTheyStand, keyText, inherited,
      Members.names, List.eraseDups_cons]
  have hclaimed :
      (inherited ((sources es).flatMap held) (explicit es)).names = ["x", "y", "z"] := by
    simp [es, lender, sources, lentBy, lends, explicit, asTheyStand, keyText, inherited,
      held_eq_inherited, Members.names, List.eraseDups_cons]
  rw [hall es, hclaimed] at hnames
  exact absurd hnames (by decide)

end Crosswalk.Yaml
