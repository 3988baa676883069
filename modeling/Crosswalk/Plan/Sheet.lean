import Crosswalk.Plan.Direction
import Crosswalk.Schema

/-!
# Plan sheets

A sheet is a plan as it is written down in a document: an order for each direction, and rules that
name converters instead of holding them.

* `Sheet.decode`: a sheet, in any format that has a reader. Fields that a sheet does not know are
  passed over, except in a rule.
-/

namespace Crosswalk

/-- A rule as it is written down. -/
structure RuleSpec where
  left : Option String
  right : Option String
  literal : Option Json
  transform : Option String
  format : Option String

/-- A plan as it is written down. -/
structure Sheet where
  order : OrderPolicy
  rules : List RuleSpec

variable {D : Type → Type}

/-- The fields of the order of a sheet. -/
def OrderPolicy.schema (r : Reader D) : Schema D OrderPolicy where
  blank := .declared
  fields := [
    r.field ["to_left", "toLeft"] (r.word Order.ofWord?) fun o p => { p with toLeft := o },
    r.field ["to_right", "toRight"] (r.word Order.ofWord?) fun o p => { p with toRight := o }]
  allowsOthers := true

/-- The fields of a rule. A literal that is null is a literal. -/
def RuleSpec.schema (r : Reader D) : Schema D RuleSpec where
  blank := ⟨none, none, none, none, none⟩
  fields := [
    r.field ["left"] r.optionalText fun t s => { s with left := t },
    r.field ["right"] r.optionalText fun t s => { s with right := t },
    r.field ["literal"] r.tree fun j s => { s with literal := some j },
    r.field ["transform"] r.optionalText fun t s => { s with transform := t },
    r.field ["format"] r.optionalText fun t s => { s with format := t }]
  allowsOthers := false

namespace Sheet

/-- The fields of a sheet. -/
def schema (r : Reader D) : Schema D Sheet where
  blank := ⟨.declared, []⟩
  fields := [
    r.field ["order"] (r.record (OrderPolicy.schema r)) fun p s => { s with order := p },
    r.field ["rules"] (r.list (r.record (RuleSpec.schema r))) fun rs s => { s with rules := rs }]
  allowsOthers := true

/-- A sheet in a document. -/
def decode (r : Reader D) : D Sheet := r.record (schema r)

end Sheet

end Crosswalk
