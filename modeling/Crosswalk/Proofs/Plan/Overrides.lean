import Crosswalk.Proofs.Plan.Writes
import Crosswalk.Proofs.Value.Merge

/-!
# Runs with overrides

Overrides are laid over the document that a plan makes without them. They have no part in whether
the run succeeds, they prevail wherever they hold something, and they leave what the plan made
wherever they hold nothing.

* `Plan.run_with_overrides`: a run with overrides beside the run without them.
-/

namespace Crosswalk

open Value

/-- A run with overrides fails with the error of the run without them, or makes the document of that
run with the overrides laid over it: their values prevail, where they have a map there is a map, and
where they are silent everything is as the plan made it. -/
theorem Plan.run_with_overrides (p : Plan) (d : Direction) (document overrides : Value)
    (h : overrides.Distinct) :
    (∀ e, p.run d (some overrides) document = .error e ↔ p.run d none document = .error e) ∧
      ∀ made, p.run d none document = .ok made →
        ∃ result, p.run d (some overrides) document = .ok result ∧
          LaidOver overrides made result := by
  rw [Plan.run_eq_map p d (some overrides)]
  cases p.run d none document with
  | error e => exact ⟨fun e' => by simp [Except.map], by simp⟩
  | ok made =>
    refine ⟨fun e => by simp [Except.map], ?_⟩
    rintro made' hmade
    obtain rfl := Except.ok.inj hmade
    exact ⟨_, rfl, laidOver_merge h made⟩

/-! ## A new age -/

/-- A plan that takes a user over as a whole. -/
def userPlan : Plan where
  links := [⟨0, .path (.ofSegments [.field "user"]), .path (.ofSegments [.field "user"]), none,
    none⟩]
  order := .declared

def userDocument : Value :=
  map [("user", map [("name", string "Ada"), ("age", int 36), ("role", string "author")])]

/-- A new age, no name, and a map in place of the role. -/
def userOverrides : Value :=
  map (Members.ofList [("user", map [("age", int 37), ("name", undefined), ("role", map [])])])

theorem userOverrides_distinct : userOverrides.Distinct := by
  refine .map (Members.nodup_names_ofList _) ?_
  simp only [Members.ofList, List.foldl_cons, List.foldl_nil, Members.put,
    List.forall_mem_singleton]
  refine .map (by decide) ?_
  simp only [List.forall_mem_cons]
  exact ⟨.bare rfl rfl, .bare rfl rfl, .bare rfl rfl, by simp⟩

theorem userPlan_run : userPlan.run .toRight none userDocument = .ok userDocument := by
  simp [userPlan, userDocument, Plan.run, Plan.along, OrderPolicy.along, OrderPolicy.declared,
    Order.arrange, applyLinks, Link.apply, Link.ends, Link.convert, Link.applyTransform,
    Link.applyFormat, Side.read, extract, inject, fan, spread, member, members, writeField,
    Members.get?, Members.put, isUndefined, Except.bind, Except.map, withOverrides]

theorem userPlan_run_with_overrides : userOverrides.Distinct ∧
    userPlan.run .toRight none userDocument = .ok userDocument ∧
    ∃ result, userPlan.run .toRight (some userOverrides) userDocument = .ok result ∧
      LaidOver userOverrides userDocument result :=
  ⟨userOverrides_distinct, userPlan_run, (Plan.run_with_overrides userPlan .toRight userDocument
    userOverrides userOverrides_distinct).2 userDocument userPlan_run⟩

end Crosswalk
