import Crosswalk.Plan.Run
import Crosswalk.Proofs.Path.Places

/-!
# What a run writes

Links read the document that a run is given and never the one that it makes, so what each of them
brings is settled before the run begins. A run succeeds exactly if every link with a destination
can convert what it reads, and then it is a series of writes.

* `Link.destination`, `Link.value`: where a link writes, and what.
* `writesOf`: the writes of links, in their order. A literal is no destination.
* `applyLinks_eq_ok_iff`, `Plan.run_eq_ok_iff`: successful runs.
* `Plan.run_eq_map`: overrides have no part in whether a run succeeds.
-/

namespace Crosswalk

open Value

/-- The path of a side. A literal has none. -/
def Side.segments : Side → List Segment
  | path p => p.segments
  | literal _ => []

def Side.isPath : Side → Bool
  | path _ => true
  | literal _ => false

theorem Side.read_of_isPath {s : Side} (h : s.isPath) (document : Value) :
    s.read document = extract s.segments document := by
  cases s with
  | path p => rfl
  | literal v => simp [isPath] at h

/-- Where a link writes in a direction. -/
def Link.destination (l : Link) (d : Direction) : List Segment := (l.ends d).2.segments

/-- What a link brings from a document, `undefined` if it cannot convert what it reads. -/
def Link.value (l : Link) (d : Direction) (document : Value) : Value :=
  match l.convert d ((l.ends d).1.read document) with
  | .ok v => v
  | .error _ => undefined

/-- A link that writes somewhere can convert what it reads. -/
def Link.Succeeds (l : Link) (d : Direction) (document : Value) : Prop :=
  (l.ends d).2.isPath → l.convert d ((l.ends d).1.read document) = .ok (l.value d document)

/-- The values that links bring from a document, each with the path that it is brought to. -/
def writesOf (d : Direction) (document : Value) (links : List Link) :
    List (List Segment × Value) :=
  (links.filter fun l => (l.ends d).2.isPath).map fun l => (l.destination d, l.value d document)

section Runs

variable {d : Direction} {document target result : Value} {l : Link} {links : List Link}

/-! ## One link -/

theorem Link.value_of_convert {v : Value}
    (h : l.convert d ((l.ends d).1.read document) = .ok v) : l.value d document = v := by
  rw [Link.value, h]

theorem Link.apply_of_isPath (h : (l.ends d).2.isPath) : l.apply d document target
    = (l.convert d ((l.ends d).1.read document)).map (inject (l.destination d) target) := by
  unfold Link.apply Link.destination
  revert h
  rcases l.ends d with ⟨source, p | v⟩
  · exact fun _ => rfl
  · simp [Side.isPath]

/-- A link whose destination is a literal leaves the document. -/
theorem Link.apply_of_not_isPath (h : (l.ends d).2.isPath = false) :
    l.apply d document target = .ok target := by
  unfold Link.apply
  revert h
  rcases l.ends d with ⟨source, p | v⟩
  · simp [Side.isPath]
  · exact fun _ => rfl

theorem writesOf_cons_of_isPath (h : (l.ends d).2.isPath) : writesOf d document (l :: links)
    = (l.destination d, l.value d document) :: writesOf d document links := by
  simp [writesOf, h]

theorem writesOf_cons_of_not_isPath (h : (l.ends d).2.isPath = false) :
    writesOf d document (l :: links) = writesOf d document links := by
  simp [writesOf, h]

/-! ## Runs -/

theorem applyLinks_cons_eq_ok_iff : applyLinks d document target (l :: links) = .ok result ↔
    ∃ next, l.apply d document target = .ok next ∧
      applyLinks d document next links = .ok result := by
  rw [applyLinks]
  cases l.apply d document target <;> simp

/-- A run of links succeeds if and only if each of them does, and it writes one value after the
other. -/
theorem applyLinks_eq_ok_iff : applyLinks d document target links = .ok result ↔
    (∀ l ∈ links, l.Succeeds d document) ∧
      result = writeAll target (writesOf d document links) := by
  induction links generalizing target with
  | nil => simp [applyLinks, writesOf, writeAll, eq_comm]
  | cons l links ih =>
    rw [applyLinks_cons_eq_ok_iff, List.forall_mem_cons]
    cases hpath : (l.ends d).2.isPath with
    | false =>
      have hsucceeds : l.Succeeds d document := fun h => by simp [hpath] at h
      simp [Link.apply_of_not_isPath hpath, writesOf_cons_of_not_isPath hpath, ih, hsucceeds]
    | true =>
      rw [Link.apply_of_isPath hpath, writesOf_cons_of_isPath hpath]
      cases hconv : l.convert d ((l.ends d).1.read document) with
      | error e =>
        have hfails : ¬ l.Succeeds d document := fun h => by simpa [hconv] using h hpath
        simp [Except.map, hfails]
      | ok v =>
        have hsucceeds : l.Succeeds d document := fun _ => by
          rw [hconv, Link.value_of_convert hconv]
        simp [Except.map, ih, hsucceeds, Link.value_of_convert hconv, writeAll]

theorem Plan.along_perm (p : Plan) (d : Direction) : (p.along d).Perm p.links := by
  unfold Plan.along
  cases p.order.along d with
  | ascending => exact .refl _
  | descending => exact List.reverse_perm _

theorem Plan.mem_along {p : Plan} : l ∈ p.along d ↔ l ∈ p.links := (p.along_perm d).mem_iff

/-- Links that are apart from each other are so in any order. -/
theorem Plan.pairwise_along {p : Plan} {R : Link → Link → Prop} (hsymm : ∀ l m, R l m → R m l)
    (h : p.links.Pairwise R) : (p.along d).Pairwise R :=
  (p.along_perm d).symm.pairwise h fun hlm => hsymm _ _ hlm

/-- A run of a plan succeeds if and only if each link does, and it writes one value after the
other into the empty map. -/
theorem Plan.run_eq_ok_iff {p : Plan} : p.run d none document = .ok result ↔
    (∀ l ∈ p.links, l.Succeeds d document) ∧
      result = writeAll (map []) (writesOf d document (p.along d)) := by
  have hmap : ∀ o : Outcome Value, o.map (withOverrides none) = o := by
    intro o
    cases o <;> rfl
  rw [Plan.run, hmap, applyLinks_eq_ok_iff]
  simp only [Plan.mem_along]

/-- Overrides are merged over the document that a run without them makes. -/
theorem Plan.run_eq_map (p : Plan) (d : Direction) (overrides : Option Value)
    (document : Value) :
    p.run d overrides document = (p.run d none document).map (withOverrides overrides) := by
  rw [Plan.run, Plan.run]
  cases applyLinks d document (map []) (p.along d) <;> rfl

end Runs

end Crosswalk
