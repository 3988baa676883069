import Crosswalk.Proofs.Plan.Writes

/-!
# Links with the same destination

Where the destinations of a plan are lists of fields, and any two of them are equal or diverge, each
destination holds in the end what the last link that had something for it brought there. Links that
bring nothing do not count, and every list of fields that diverges from all destinations leads to
nothing.

* `FieldPath`: the paths of fields.
* `lastWrite`: the last defined value in a series of writes through a path.
* `extract_writeAll_eq_lastWrite`: what a path leads to after a series of writes.
* `Plan.FieldTargets`: the plans whose destinations are fields that are equal or diverge.
* `Plan.FieldTargets.last_write_wins`: what such a plan makes of a document.
-/

namespace Crosswalk

open Value

/-! ## Paths of fields -/

/-- One or more fields. -/
def FieldPath (p : List Segment) : Prop := p ≠ [] ∧ ∀ s ∈ p, s.isField

theorem FieldPath.memberPath {p : List Segment} (h : FieldPath p) : MemberPath p where
  inReach s hs := by
    have hfield := h.2 s hs
    cases s <;> simp_all [Segment.isField, Segment.InReach]
  ends := by
    have hlast := h.2 _ (List.getLast_mem h.1)
    rw [List.getLast?_eq_some_getLast h.1]
    cases hs : p.getLast h.1 with
    | field name => exact ⟨name, rfl⟩
    | _ => simp [hs, Segment.isField] at hlast

theorem Diverge.ne {p q : List Segment} (h : Diverge p q) : p ≠ q := by
  induction h with
  | field hne => simp [hne]
  | index hne => simp [hne]
  | cons s _ ih => simp [ih]

/-! ## The last write -/

/-- The last defined value that is written through a path. -/
def lastWrite (q : List Segment) (writes : List (List Segment × Value)) : Option Value :=
  (writes.filterMap fun w =>
    if w.1 = q ∧ w.2.isUndefined = false then some w.2 else none).getLast?

section LastWrite

variable {q : List Segment} {v : Value} {w : List Segment × Value}
  {writes : List (List Segment × Value)}

theorem lastWrite_cons_of_written (hq : w.1 = q) (hdef : w.2 ≠ undefined) :
    lastWrite q (w :: writes) = some ((lastWrite q writes).getD w.2) := by
  have hw : w.1 = q ∧ w.2.isUndefined = false := ⟨hq, by simpa using hdef⟩
  simp only [lastWrite, List.filterMap_cons, if_pos hw, List.getLast?_cons]

theorem lastWrite_cons_of_skipped (h : w.1 = q → w.2 = undefined) :
    lastWrite q (w :: writes) = lastWrite q writes := by
  have hw : ¬ (w.1 = q ∧ w.2.isUndefined = false) := fun hw => by simp [h hw.1] at hw
  simp only [lastWrite, List.filterMap_cons, if_neg hw]

theorem lastWrite_eq_none (h : ∀ w ∈ writes, w.1 ≠ q) : lastWrite q writes = none := by
  induction writes with
  | nil => rfl
  | cons w writes ih =>
    rw [lastWrite_cons_of_skipped fun hq => absurd hq (h w (by simp)),
      ih fun w hw => h w (by simp [hw])]

/-- After a series of writes through one path and through others that diverge from it, the path
leads to the last defined value that was written through it, and to what was there before if there
is none. -/
theorem extract_writeAll_eq_lastWrite (hq : MemberPath q)
    (hpaths : ∀ w ∈ writes, MemberPath w.1 ∧ (w.1 = q ∨ Diverge w.1 q)) (hv : Singular q v) :
    extract q (writeAll v writes) = (lastWrite q writes).getD (extract q v) := by
  induction writes generalizing v with
  | nil => rfl
  | cons w writes ih =>
    have hrest := fun {u : Value} (hu : Singular q u) =>
      ih (v := u) (fun a ha => hpaths a (by simp [ha])) hu
    obtain ⟨hmember, hsame | hdiverge⟩ := hpaths w (by simp)
    · by_cases hdef : w.2 = undefined
      · rw [lastWrite_cons_of_skipped fun _ => hdef, writeAll, List.foldl_cons, hdef,
          inject_undefined]
        exact hrest hv
      · have hread : extract q (inject w.1 v w.2) = w.2 := by
          rw [hsame]
          exact extract_inject_of_aligned (hv.aligned hq.inReach hdef)
        have hsing : Singular q (inject w.1 v w.2) := by
          rw [hsame]
          exact hv.inject hq.inReach
        rw [lastWrite_cons_of_written hsame hdef, Option.getD_some, ← hread]
        exact hrest hsing
    · obtain ⟨hsing, hread⟩ := hdiverge.frame (w := w.2) hmember hq hv
      rw [lastWrite_cons_of_skipped fun h => absurd h hdiverge.ne, ← hread]
      exact hrest hsing

end LastWrite

/-! ## Plans -/

/-- The destinations of a plan in a direction are lists of fields, and any two of them are equal or
diverge. A literal is no destination. -/
structure Plan.FieldTargets (p : Plan) (d : Direction) : Prop where
  fields : ∀ l ∈ p.links, (l.ends d).2.isPath → FieldPath (l.destination d)
  apart : ∀ l ∈ p.links, ∀ m ∈ p.links, (l.ends d).2.isPath → (m.ends d).2.isPath →
    l.destination d = m.destination d ∨ Diverge (l.destination d) (m.destination d)

section Plans

variable {p : Plan} {d : Direction} {document : Value}

theorem mem_writesOf {links : List Link} {w : List Segment × Value}
    (h : w ∈ writesOf d document links) : ∃ l ∈ links, (l.ends d).2.isPath ∧
      w = (l.destination d, l.value d document) := by
  obtain ⟨l, hl, rfl⟩ := List.mem_map.mp h
  obtain ⟨hl, hpath⟩ := List.mem_filter.mp hl
  exact ⟨l, hl, hpath, rfl⟩

/-- What a list of fields leads to after all links of a plan have written, if each destination is
the same list or diverges from it. -/
theorem Plan.FieldTargets.extract_writeAll (h : p.FieldTargets d) {q : List Segment}
    (hq : FieldPath q) (hdest : ∀ l ∈ p.links, (l.ends d).2.isPath →
      l.destination d = q ∨ Diverge (l.destination d) q) :
    extract q (writeAll (map []) (writesOf d document (p.along d)))
      = (lastWrite q (writesOf d document (p.along d))).getD undefined := by
  obtain ⟨hsing, hnone⟩ := hq.memberPath.vacant (v := map []) rfl rfl rfl
  rw [← hnone]
  refine extract_writeAll_eq_lastWrite hq.memberPath (fun w hw => ?_) hsing
  obtain ⟨l, hl, hpath, rfl⟩ := mem_writesOf hw
  have hl' := Plan.mem_along.mp hl
  exact ⟨(h.fields l hl' hpath).memberPath, hdest l hl' hpath⟩

/-- The writes of a plan are those of its links that have a destination. -/
theorem Plan.writesOf_along_filter : writesOf d document
    (Plan.along { p with links := p.links.filter fun l => (l.ends d).2.isPath } d)
      = writesOf d document (p.along d) := by
  simp only [writesOf, Plan.along]
  cases p.order.along d <;> simp [Order.arrange, List.filter_filter]

/-- Of the links of a plan that bring something to one destination, the last one in the order of the
run decides what the destination holds; it holds nothing if there is none. Lists of fields that
diverge from all destinations lead to nothing, and links whose destination is a literal could be
left out. -/
theorem Plan.FieldTargets.last_write_wins (p : Plan) (d : Direction) (document result : Value)
    (h : p.FieldTargets d) (hrun : p.run d none document = .ok result) :
    (∀ l ∈ p.links, l.Succeeds d document) ∧
      (∀ l ∈ p.links, (l.ends d).2.isPath → extract (l.destination d) result
        = (lastWrite (l.destination d) (writesOf d document (p.along d))).getD undefined) ∧
      (∀ q, FieldPath q → (∀ l ∈ p.links, (l.ends d).2.isPath → Diverge (l.destination d) q) →
        extract q result = undefined) ∧
      Plan.run { p with links := p.links.filter fun l => (l.ends d).2.isPath } d none document
        = .ok result := by
  obtain ⟨hsucceeds, hresult⟩ := Plan.run_eq_ok_iff.mp hrun
  refine ⟨hsucceeds, ?winner, ?elsewhere, ?literals⟩
  case winner =>
    intro l hl hpath
    rw [hresult]
    exact h.extract_writeAll (h.fields l hl hpath) fun m hm hm' => h.apart m hm l hl hm' hpath
  case elsewhere =>
    intro q hq hdiverge
    have hnone : lastWrite q (writesOf d document (p.along d)) = none := by
      refine lastWrite_eq_none fun w hw => ?_
      obtain ⟨l, hl, hpath, rfl⟩ := mem_writesOf hw
      exact (hdiverge l (Plan.mem_along.mp hl) hpath).ne
    rw [hresult, h.extract_writeAll hq fun l hl hpath => .inr (hdiverge l hl hpath), hnone]
    rfl
  case literals =>
    refine Plan.run_eq_ok_iff.mpr ⟨fun l hl => ?_, by rw [hresult, Plan.writesOf_along_filter]⟩
    exact hsucceeds l (List.mem_of_mem_filter hl)

end Plans

/-! ## Two rules for one name -/

/-- A converter that finds nothing. -/
def Converter.nothing : Converter := ⟨fun _ => .ok undefined, fun _ => .ok undefined⟩

/-- A converter that marks names with a sign in front. -/
def Converter.handle : Converter where
  toRight
    | .string s => .ok (.string ("@" ++ s))
    | v => .ok v
  toLeft v := .ok v

/-- A plan that runs from its last link on: four links for a name, the first of which finds nothing
and the last of which converts to nothing, one for its neighbour, and one without a place on the
right. What the name holds in the end is made by a transform, and its neighbour by a format. -/
def namePlan : Plan where
  links := [
    ⟨0, .path (.ofSegments [.field "full"]), .path (.ofSegments [.field "user", .field "name"]),
      none, none⟩,
    ⟨1, .path (.ofSegments [.field "nick"]), .path (.ofSegments [.field "user", .field "name"]),
      some .handle, none⟩,
    ⟨2, .path (.ofSegments [.field "age"]), .path (.ofSegments [.field "user", .field "age"]),
      none, some ("json", .jsonText)⟩,
    ⟨3, .path (.ofSegments [.field "kind"]), .literal (string "user"), none, none⟩,
    ⟨4, .path (.ofSegments [.field "login"]), .path (.ofSegments [.field "user", .field "name"]),
      none, none⟩,
    ⟨5, .path (.ofSegments [.field "age"]), .path (.ofSegments [.field "user", .field "name"]),
      some .nothing, none⟩]
  order := ⟨.ascending, .descending⟩

def nameDocument : Value :=
  map [("nick", string "ada"), ("login", string "al"), ("age", array [int 36])]

theorem namePlan_fieldTargets : namePlan.FieldTargets .toRight where
  fields := by
    simp [namePlan, Link.ends, Link.destination, Side.isPath, Side.segments, FieldPath,
      Segment.isField]
  apart := by
    have hage : Diverge [.field "user", .field "name"] [.field "user", .field "age"] :=
      .cons _ (.field (by decide))
    simp [namePlan, Link.ends, Link.destination, Side.isPath, Side.segments, hage, hage.symm]

def nameResult : Value :=
  map [("user", map [("name", string "@ada"), ("age", string "[36]")])]

theorem writeJson_age : Converter.writeJson (array [int 36]) = .ok (string "[36]") := by
  have hnumber : (Number.ofInt64 36).jsonText = "36" := by decide +kernel
  simp only [Converter.writeJson, Json.ofValue, Json.compact, List.map_cons, List.map_nil, hnumber]
  rfl

theorem namePlan_run : namePlan.run .toRight none nameDocument = .ok nameResult := by
  simp [namePlan, nameDocument, nameResult, Plan.run, Plan.along, OrderPolicy.along, Order.arrange,
    applyLinks, Link.apply, Link.ends, Link.convert, Link.applyTransform, Link.applyFormat,
    Side.read, Converter.nothing, Converter.handle, Converter.jsonText, Converter.apply,
    writeJson_age, extract, inject, fan, spread, member, members, writeField, Members.get?,
    Members.put, isUndefined, Except.bind, Except.map, withOverrides, List.lookup_cons]

theorem namePlan_last_write_wins : namePlan.FieldTargets .toRight ∧
    namePlan.run .toRight none nameDocument = .ok nameResult ∧
    (∀ l ∈ namePlan.links, l.Succeeds .toRight nameDocument) ∧
    (∀ l ∈ namePlan.links, (l.ends .toRight).2.isPath →
      extract (l.destination .toRight) nameResult = (lastWrite (l.destination .toRight)
        (writesOf .toRight nameDocument (namePlan.along .toRight))).getD undefined) ∧
    (∀ q, FieldPath q →
      (∀ l ∈ namePlan.links, (l.ends .toRight).2.isPath → Diverge (l.destination .toRight) q) →
        extract q nameResult = undefined) ∧
    Plan.run { namePlan with links := namePlan.links.filter fun l => (l.ends .toRight).2.isPath }
      .toRight none nameDocument = .ok nameResult :=
  ⟨namePlan_fieldTargets, namePlan_run, Plan.FieldTargets.last_write_wins namePlan .toRight
    nameDocument nameResult namePlan_fieldTargets namePlan_run⟩

end Crosswalk
