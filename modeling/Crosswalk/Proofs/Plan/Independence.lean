import Crosswalk.Proofs.Path.Commute
import Crosswalk.Proofs.Plan.Writes
import Mathlib.Data.List.Rotate

/-!
# Links that can run in any order

If the destinations of links fork pairwise, the order in which the links run plays no part: whether
they succeed does not depend on it, and their writes can be put in any order. So a plan and another
one with the same links in another order, or with another order policy, make the same document up
to the order of members, with overrides or without them.

* `Plan.Independent`: the plans whose destinations fork pairwise.
* `Plan.Independent.pairwise_fork`: the writes of such a plan.
* `Plan.Independent.run_of_perm`: its runs in any order.
-/

namespace Crosswalk

open Value

/-- The destinations of a plan in a direction fork pairwise. A literal is no destination. -/
def Plan.Independent (p : Plan) (d : Direction) : Prop :=
  p.links.Pairwise fun l m => (l.ends d).2.isPath → (m.ends d).2.isPath →
    Fork (l.destination d) (m.destination d)

section Runs

variable {p q : Plan} {d : Direction} {document : Value}

theorem Plan.Independent.pairwise_fork (h : p.Independent d) :
    (writesOf d document (p.along d)).Pairwise fun a b => Fork a.1 b.1 := by
  refine List.pairwise_map.mpr (List.pairwise_filter.mpr ?_)
  exact Plan.pairwise_along (fun l m hlm hm hl => (hlm hl hm).symm) h

theorem writesOf_perm (d : Direction) (document : Value) {links links' : List Link}
    (h : links.Perm links') : (writesOf d document links).Perm (writesOf d document links') :=
  (h.filter _).map _

theorem Value.Alike.withOverrides {v w : Value} (h : Alike v w) (overrides : Option Value) :
    Alike (withOverrides overrides v) (withOverrides overrides w) := by
  cases overrides with
  | none => exact h
  | some o => exact h.merge

/-- If the destinations of a plan fork pairwise, every plan with the same links in any order and
with any order policy fails if it does, and otherwise makes the same document up to the order of
members. -/
theorem Plan.Independent.run_of_perm (p q : Plan) (d : Direction) (overrides : Option Value)
    (document : Value) (h : p.Independent d) (hperm : p.links.Perm q.links) :
    (∃ e e', p.run d overrides document = .error e ∧ q.run d overrides document = .error e') ∨
      ∃ v w, p.run d overrides document = .ok v ∧ q.run d overrides document = .ok w ∧
        Alike v w := by
  rw [Plan.run_eq_map p, Plan.run_eq_map q]
  cases hp : p.run d none document with
  | error e =>
    cases hq : q.run d none document with
    | error e' => exact .inl ⟨e, e', rfl, rfl⟩
    | ok w =>
      -- the links of the other plan all succeed, and they are the links of this one
      have hsucceeds := (Plan.run_eq_ok_iff.mp hq).1
      have hok := Plan.run_eq_ok_iff.mpr
        ⟨fun l hl => hsucceeds l (hperm.mem_iff.mp hl), rfl⟩
      rw [hp] at hok
      cases hok
  | ok v =>
    obtain ⟨hsucceeds, hv⟩ := Plan.run_eq_ok_iff.mp hp
    have hq : q.run d none document = .ok (writeAll (map []) (writesOf d document (q.along d))) :=
      Plan.run_eq_ok_iff.mpr ⟨fun l hl => hsucceeds l (hperm.mem_iff.mpr hl), rfl⟩
    have halong : (p.along d).Perm (q.along d) :=
      (p.along_perm d).trans (hperm.trans (q.along_perm d).symm)
    have halike := alike_writeAll_of_perm (writesOf_perm d document halong) h.pairwise_fork
      (map [])
    rw [← hv] at halike
    exact .inr ⟨_, _, rfl, by rw [hq]; rfl, halike.withOverrides overrides⟩

end Runs

/-! ## A member of a team -/

/-- A plan for the first member of a team: the name, the last two marks backward, a word that has no
place on the right, and the size of the team. -/
def memberPlan : Plan where
  links := [
    ⟨0, .path (.ofSegments [.field "name"]),
      .path (.ofSegments [.field "team", .index 0, .field "name"]), none, none⟩,
    ⟨1, .path (.ofSegments [.field "marks"]),
      .path (.ofSegments [.field "team", .index 0, .field "marks", .slice ⟨0, some (-2)⟩]), none,
      none⟩,
    ⟨2, .path (.ofSegments [.field "kind"]), .literal (string "member"), none, none⟩,
    ⟨3, .literal (int 1), .path (.ofSegments [.field "size"]), none, some ("json", .jsonText)⟩]
  order := .declared

/-- The same links, the first one declared last, run from the last one on. -/
def turnedMemberPlan : Plan := ⟨memberPlan.links.rotate 1, ⟨.ascending, .descending⟩⟩

def memberDocument : Value := map [("name", string "Ada"), ("marks", array [int 3, int 5])]

theorem memberPlan_independent : memberPlan.Independent .toRight := by
  have hteam : Fork [.field "team", .index 0, .field "name"]
      [.field "team", .index 0, .field "marks", .slice ⟨0, some (-2)⟩] :=
    .cons rfl (.cons rfl (.field (by decide)))
  have hsize : ∀ rest, Fork (.field "team" :: rest) [.field "size"] :=
    fun rest => .field (by decide)
  simp [Plan.Independent, memberPlan, Link.ends, Link.destination, Side.isPath, Side.segments,
    hteam, hsize]

theorem memberPlan_run_of_perm :
    memberPlan.Independent .toRight ∧ memberPlan.links.Perm turnedMemberPlan.links ∧
      ((∃ e e', memberPlan.run .toRight (some (map [("size", int 2)])) memberDocument = .error e ∧
        turnedMemberPlan.run .toRight (some (map [("size", int 2)])) memberDocument = .error e') ∨
      ∃ v w, memberPlan.run .toRight (some (map [("size", int 2)])) memberDocument = .ok v ∧
        turnedMemberPlan.run .toRight (some (map [("size", int 2)])) memberDocument = .ok w ∧
        Alike v w) :=
  have hperm := (List.rotate_perm memberPlan.links 1).symm
  ⟨memberPlan_independent, hperm, Plan.Independent.run_of_perm memberPlan turnedMemberPlan .toRight
    (some (map [("size", int 2)])) memberDocument memberPlan_independent hperm⟩

end Crosswalk
