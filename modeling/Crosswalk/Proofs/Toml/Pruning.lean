import Crosswalk.Proofs.Outcome
import Crosswalk.Proofs.Value.Parts
import Crosswalk.Toml.Basic

/-!
# Values as TOML tables

TOML knows nothing like null. A member that is absent is left out, at any depth. An element that is
absent would leave a gap in its array, so a value with a gap anywhere has no tree at all. What is
left is a tree whose value is the given one without its absent members, and with the members of
every map in the order of their names.

* `gaps`: the places of absent elements in their arrays, from the first to the last, what an element
  or a member holds before what comes after it.
* `pruned`: a value without its absent members, all members in the order of their names.
* `gaps_eq_nil_iff`: a value has no gaps if no array in it has an absent element.
* `Toml.Verdict`, `Toml.verdict`: what becomes of a value.
* `Toml.document_of_gap`, `Toml.document_of_gapless`: what becomes of a document.
* `Toml.table_of_value`: which values have a table, why others have none, and what the table holds.
-/

namespace Crosswalk

namespace Value

/-- A value that TOML has no word for. -/
def isAbsent : Value → Bool
  | undefined => true
  | null => true
  | _ => false

/-- A value without absent members, the members of every map in the order of their names. -/
def pruned : Value → Value
  | array xs => array (xs.map pruned)
  | map ms => map (((ms.filter fun m => !m.2.isAbsent).map fun m => (m.1, pruned m.2)).mergeSort
      fun a b => a.1 ≤ b.1)
  | v => v
decreasing_by
  · have := List.sizeOf_lt_of_mem ‹_›
    simp only [array.sizeOf_spec]; omega
  · have := sizeOf_member_lt ‹_›
    simp only [map.sizeOf_spec]; omega

mutual

/-- The places of absent elements in their arrays, depth first. -/
def gaps : Value → List Nat
  | array xs => gapsFrom 0 xs
  | map ms => gapsOfMembers ms
  | _ => []

/-- The gaps among elements, the first of them at a given place in its array, and within them. -/
def gapsFrom (place : Nat) : List Value → List Nat
  | [] => []
  | x :: xs => (if x.isAbsent then [place] else gaps x) ++ gapsFrom (place + 1) xs

/-- The gaps within members. -/
def gapsOfMembers : List (String × Value) → List Nat
  | [] => []
  | (_, v) :: ms => gaps v ++ gapsOfMembers ms

end

/-- No array, at any depth, has an absent element. -/
def Gapless (v : Value) : Prop := v.Throughout fun u => ∀ x ∈ u.items, x.isAbsent = false

section Levels

variable {v x : Value} {xs : List Value} {ms : Members Value} {place : Nat}

theorem gaps_array : (array xs).gaps = gapsFrom 0 xs := by rw [gaps]

theorem gaps_map : (map ms).gaps = ms.flatMap fun m => m.2.gaps := by
  rw [gaps]
  induction ms with
  | nil => rfl
  | cons m ms ih => rw [gapsOfMembers, ih, List.flatMap_cons]

@[simp] theorem gapsFrom_nil : gapsFrom place [] = [] := by rw [gapsFrom]

theorem gapsFrom_cons : gapsFrom place (x :: xs)
    = (if x.isAbsent then [place] else x.gaps) ++ gapsFrom (place + 1) xs := by rw [gapsFrom]

theorem gaps_of_isAbsent (h : v.isAbsent) : v.gaps = [] := by
  cases v <;> simp_all [isAbsent, gaps]

theorem pruned_array : (array xs).pruned = array (xs.map pruned) := by rw [pruned]

theorem pruned_map : (map ms).pruned
    = map (Toml.byName ((ms.filter fun m => !m.2.isAbsent).map fun m => (m.1, m.2.pruned))) := by
  rw [pruned, Toml.byName]

theorem isMap_pruned (v : Value) : v.pruned.isMap = v.isMap := by
  cases v <;> simp [pruned, isMap]

theorem gapsFrom_eq_nil_iff :
    gapsFrom place xs = [] ↔ ∀ x ∈ xs, x.isAbsent = false ∧ x.gaps = [] := by
  induction xs generalizing place with
  | nil => simp
  | cons x xs ih => cases hx : x.isAbsent <;> simp [gapsFrom_cons, ih, hx]

theorem gaps_eq_nil_iff (v : Value) : v.gaps = [] ↔ v.Gapless := by
  induction v using Value.induct with
  | array xs ih =>
    have hall : (∀ x ∈ xs, x.isAbsent = false ∧ x.gaps = []) ↔
        ∀ x ∈ xs, x.isAbsent = false ∧ x.Gapless :=
      forall₂_congr fun x hx => and_congr_right fun _ => ih x hx
    rw [gaps_array, gapsFrom_eq_nil_iff, hall, Gapless, throughout_array_iff]
    exact ⟨fun h => ⟨fun x hx => (h x hx).1, fun x hx => (h x hx).2⟩,
      fun h x hx => ⟨h.1 x hx, h.2 x hx⟩⟩
  | map ms ih =>
    rw [gaps_map, List.flatMap_eq_nil_iff, Gapless, throughout_map_iff]
    simp only [Value.items, List.not_mem_nil, false_implies, implies_true, true_and]
    exact forall₂_congr ih
  | _ => simp [gaps, Gapless, throughout_of_bare, Value.items]

end Levels

end Value

namespace Toml

open Value

/-! ## What becomes of a value -/

/-- The error for an absent element at a place. -/
def missingElement (place : Nat) : Error :=
  .unwritable ("TOML cannot represent null array elements (element "
    ++ Decimal.ofNatText place ++ ")")

/-- What becomes of a value: nothing if it is absent, an error if it has a gap, and otherwise a tree
with its pruned value. -/
inductive Verdict (v : Value) : Outcome (Option Toml) → Prop
  | absent : v.isAbsent → Verdict v (.ok none)
  | gap {place : Nat} {rest : List Nat} : v.gaps = place :: rest →
    Verdict v (.error (missingElement place))
  | tree {t : Toml} : v.isAbsent = false → v.gaps = [] → t.toValue = v.pruned →
    Verdict v (.ok (some t))

section Lists

variable {xs : List Value} {ms : Members Value} {index place : Nat} {rest : List Nat}

/-- An array with a gap fails with the first one. -/
theorem elements_of_gap (h : ∀ x ∈ xs, Verdict x (ofValue? x))
    (hgaps : gapsFrom index xs = place :: rest) :
    elements index (xs.map ofValue?) = .error (missingElement place) := by
  induction xs generalizing index with
  | nil => simp at hgaps
  | cons x xs ih =>
    obtain ⟨hx, hxs⟩ := List.forall_mem_cons.mp h
    rw [gapsFrom_cons] at hgaps
    rw [List.map_cons]
    generalize ofValue? x = r at hx
    cases hx with
    | absent habsent =>
      rw [if_pos habsent, List.singleton_append, List.cons.injEq] at hgaps
      rw [elements, hgaps.1, missingElement]
    | @gap first later hgap =>
      have hpresent : ¬ x.isAbsent = true := fun habsent => by
        simp [gaps_of_isAbsent habsent] at hgap
      rw [if_neg hpresent, hgap, List.cons_append, List.cons.injEq] at hgaps
      rw [elements, hgaps.1]
    | tree hpresent hgap _ =>
      rw [hpresent, hgap] at hgaps
      rw [elements, ih hxs hgaps]
      rfl

/-- The elements of an array without gaps. -/
theorem elements_of_gapless (h : ∀ x ∈ xs, Verdict x (ofValue? x))
    (hgaps : gapsFrom index xs = []) :
    ∃ ts, elements index (xs.map ofValue?) = .ok ts ∧ ts.map toValue = xs.map pruned := by
  induction xs generalizing index with
  | nil => exact ⟨[], rfl, rfl⟩
  | cons x xs ih =>
    obtain ⟨hx, hxs⟩ := List.forall_mem_cons.mp h
    rw [gapsFrom_cons, List.append_eq_nil_iff] at hgaps
    obtain ⟨ts, hts, hvalues⟩ := ih hxs hgaps.2
    rw [List.map_cons]
    generalize ofValue? x = r at hx
    cases hx with
    | absent habsent => simp [habsent] at hgaps
    | gap hgap =>
      have hfirst := hgaps.1
      split at hfirst
      · simp at hfirst
      · simp [hgap] at hfirst
    | @tree t _ _ ht =>
      refine ⟨t :: ts, ?_, ?_⟩
      · rw [elements, hts]
        rfl
      · rw [List.map_cons, List.map_cons, ht, hvalues]

/-- A map with a gap in a member fails with the first one. -/
theorem present_of_gap (h : ∀ m ∈ ms, Verdict m.2 (ofValue? m.2))
    (hgaps : (ms.flatMap fun m => m.2.gaps) = place :: rest) :
    present (ms.map fun m => (m.1, ofValue? m.2)) = .error (missingElement place) := by
  induction ms with
  | nil => simp at hgaps
  | cons m ms ih =>
    obtain ⟨hm, hms⟩ := List.forall_mem_cons.mp h
    rw [List.flatMap_cons] at hgaps
    rw [List.map_cons]
    generalize ofValue? m.2 = r at hm
    cases hm with
    | absent habsent =>
      rw [gaps_of_isAbsent habsent, List.nil_append] at hgaps
      rw [present, ih hms hgaps]
    | @gap first later hgap =>
      rw [hgap, List.cons_append, List.cons.injEq] at hgaps
      rw [present, hgaps.1]
    | tree _ hgap _ =>
      rw [hgap, List.nil_append] at hgaps
      rw [present, ih hms hgaps]
      rfl

/-- The entries of a map without gaps. -/
theorem present_of_gapless (h : ∀ m ∈ ms, Verdict m.2 (ofValue? m.2))
    (hgaps : (ms.flatMap fun m => m.2.gaps) = []) :
    ∃ es, present (ms.map fun m => (m.1, ofValue? m.2)) = .ok es ∧
      (es.map fun e => (e.1, e.2.toValue))
        = (ms.filter fun m => !m.2.isAbsent).map fun m => (m.1, m.2.pruned) := by
  induction ms with
  | nil => exact ⟨[], rfl, rfl⟩
  | cons m ms ih =>
    obtain ⟨hm, hms⟩ := List.forall_mem_cons.mp h
    rw [List.flatMap_cons, List.append_eq_nil_iff] at hgaps
    obtain ⟨es, hes, hvalues⟩ := ih hms hgaps.2
    rw [List.map_cons]
    generalize ofValue? m.2 = r at hm
    cases hm with
    | absent habsent =>
      refine ⟨es, ?_, ?_⟩
      · rw [present, hes]
      · rw [List.filter_cons_of_neg (by simp [habsent]), hvalues]
    | gap hgap => simp [hgap] at hgaps
    | @tree t hpresent _ ht =>
      refine ⟨(m.1, t) :: es, ?_, ?_⟩
      · rw [present, hes]
        rfl
      · rw [List.filter_cons_of_pos (by simp [hpresent]), List.map_cons, List.map_cons, ht, hvalues]

end Lists

/-- Values of entries, before or after the entries are put in order. -/
theorem map_byName {α β : Type} (f : α → β) (es : List (String × α)) :
    (byName es).map (fun e => (e.1, f e.2)) = byName (es.map fun e => (e.1, f e.2)) :=
  List.map_mergeSort fun _ _ _ _ => rfl

theorem pairwise_byName {α : Type} (es : List (String × α)) :
    (byName es).Pairwise fun a b => a.1 ≤ b.1 := by
  refine (List.pairwise_mergeSort (fun a b c hab hbc => ?_) (fun a b => ?_) es).imp fun h => ?_
  · simp only [decide_eq_true_eq] at hab hbc ⊢
    exact String.le_trans hab hbc
  · simpa using String.le_total a.1 b.1
  · simpa using h

theorem toValue_table (es : List (String × Toml)) :
    (table (byName es)).toValue = .map (byName (es.map fun e => (e.1, e.2.toValue))) := by
  rw [toValue, map_byName]

theorem verdict (v : Value) : Verdict v (ofValue? v) := by
  induction v using Value.induct with
  | array xs ih =>
    rw [ofValue?]
    cases hgaps : gapsFrom 0 xs with
    | nil =>
      obtain ⟨ts, hts, hvalues⟩ := elements_of_gapless ih hgaps
      rw [hts]
      refine .tree rfl (gaps_array.trans hgaps) ?_
      rw [toValue, hvalues, pruned_array]
    | cons place rest =>
      rw [elements_of_gap ih hgaps]
      exact .gap (gaps_array.trans hgaps)
  | map ms ih =>
    rw [ofValue?]
    cases hgaps : ms.flatMap fun m => m.2.gaps with
    | nil =>
      obtain ⟨es, hes, hvalues⟩ := present_of_gapless ih hgaps
      rw [hes]
      refine .tree rfl (gaps_map.trans hgaps) ?_
      rw [toValue_table, hvalues, pruned_map]
    | cons place rest =>
      rw [present_of_gap ih hgaps]
      exact .gap (gaps_map.trans hgaps)
  | undefined => rw [ofValue?]; exact .absent rfl
  | null => rw [ofValue?]; exact .absent rfl
  | bool b => rw [ofValue?]; exact .tree rfl (by simp [gaps]) (by simp [toValue, pruned])
  | int n => rw [ofValue?]; exact .tree rfl (by simp [gaps]) (by simp [toValue, pruned])
  | float x => rw [ofValue?]; exact .tree rfl (by simp [gaps]) (by simp [toValue, pruned])
  | string s => rw [ofValue?]; exact .tree rfl (by simp [gaps]) (by simp [toValue, pruned])

/-! ## Documents -/

section Documents

variable {v : Value} {t : Toml} {place : Nat} {rest : List Nat}

theorem exists_table (h : t.toValue.isMap) : ∃ es, t = table es := by
  cases t <;> simp_all [toValue, isMap]

/-- A document with a gap fails with the first one, whatever else is wrong with it. -/
theorem document_of_gap (h : v.gaps = place :: rest) :
    document? v = .error (missingElement place) := by
  have hv := verdict v
  rw [document?]
  generalize ofValue? v = r at hv
  cases hv with
  | absent habsent => simp [gaps_of_isAbsent habsent] at h
  | gap hgap =>
    obtain ⟨rfl, -⟩ := List.cons.inj (hgap.symm.trans h)
    rfl
  | tree _ hgap _ => simp [hgap] at h

/-- A map without gaps has a table. -/
theorem document_of_gapless (h : v.gaps = []) (hmap : v.isMap) :
    ∃ t, document? v = .ok t ∧ t.toValue = v.pruned := by
  have hv := verdict v
  rw [document?]
  generalize ofValue? v = r at hv
  cases hv with
  | absent habsent => cases v <;> simp_all [isAbsent, isMap]
  | gap hgap => simp [hgap] at h
  | @tree t _ _ ht =>
    obtain ⟨es, rfl⟩ : ∃ es, t = table es := exists_table (by rwa [ht, isMap_pruned])
    exact ⟨table es, rfl, ht⟩

/-- What is not a map has no table. -/
theorem document_of_not_isMap (h : v.gaps = []) (hmap : v.isMap = false) :
    document? v = .error (.unwritable "TOML requires a top-level table (map)") := by
  have hv := verdict v
  rw [document?]
  generalize ofValue? v = r at hv
  cases hv with
  | absent _ => rfl
  | gap hgap => simp [hgap] at h
  | @tree t _ _ ht =>
    rw [← isMap_pruned, ← ht] at hmap
    cases t with
    | table es => simp [toValue, isMap] at hmap
    | _ => rfl

end Documents

/-- The members of every map in a pruned value are in the order of their names. -/
theorem throughout_pruned (v : Value) :
    v.pruned.Throughout fun u => u.members.Pairwise fun a b => a.1 ≤ b.1 := by
  induction v using Value.induct with
  | array xs ih =>
    rw [pruned_array, throughout_array_iff]
    refine ⟨.nil, fun y hy => ?_⟩
    obtain ⟨x, hx, rfl⟩ := List.mem_map.mp hy
    exact ih x hx
  | map ms ih =>
    rw [pruned_map, throughout_map_iff]
    refine ⟨pairwise_byName _, fun n hn => ?_⟩
    obtain ⟨m, hm, rfl⟩ := List.mem_map.mp ((List.mergeSort_perm _ _).mem_iff.mp hn)
    exact ih m (List.mem_filter.mp hm).1
  | _ => simp [pruned, throughout_of_bare, Value.members]

/-- A value has a table exactly if it is a map and no array in it has an absent element. If one has,
whether the value is a map or not, the error names the place of the first such element. The value of
a table is the pruned value, whose members are in the order of their names. -/
theorem table_of_value (v : Value) :
    ((∃ t, document? v = .ok t) ↔ v.isMap ∧ v.Gapless) ∧
      (¬ v.Gapless → ∃ place rest, v.gaps = place :: rest ∧ document? v =
        .error (.unwritable ("TOML cannot represent null array elements (element "
          ++ Decimal.ofNatText place ++ ")"))) ∧
      (∀ t, document? v = .ok t → t.toValue = v.pruned) ∧
      v.pruned.Throughout fun u => u.members.Pairwise fun a b => a.1 ≤ b.1 := by
  rw [← gaps_eq_nil_iff]
  cases hgaps : v.gaps with
  | cons place rest =>
    have hdocument := document_of_gap hgaps
    refine ⟨?_, fun _ => ⟨place, rest, rfl, hdocument⟩, ?_, throughout_pruned v⟩
    · simp [hdocument]
    · simp [hdocument]
  | nil =>
    cases hmap : v.isMap with
    | false =>
      have hdocument := document_of_not_isMap hgaps hmap
      exact ⟨by simp [hdocument], fun h => absurd rfl h, by simp [hdocument], throughout_pruned v⟩
    | true =>
      obtain ⟨t, ht, hvalue⟩ := document_of_gapless hgaps hmap
      exact ⟨by simp [ht], fun h => absurd rfl h, by simp [ht, hvalue], throughout_pruned v⟩

end Toml

end Crosswalk
