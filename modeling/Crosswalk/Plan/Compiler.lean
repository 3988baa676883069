import Crosswalk.Path.Memo
import Crosswalk.Plan.Basic
import Crosswalk.Plan.Sheet

/-!
# Compiling plans

A compiler makes plans from rules. It knows a registry, and remembers the paths that it has read.

* `Compiler.compile`: the plan of a list of rules, or the error of the first rule that has one, and
  the compiler with what it remembers from then on.
* `Compiler.compileSheet`: the plan of a sheet. All transforms are looked up before any rule is
  compiled.
-/

namespace Crosswalk

/-- A registry, and the paths read so far. -/
structure Compiler where
  registry : Registry
  memo : PathMemo

namespace Compiler

def ofRegistry (r : Registry) : Compiler := ⟨r, .empty⟩

/-- A side with its path read. -/
def compileSide (memo : PathMemo) : SideText → Outcome Side × PathMemo
  | .literal v => (.ok (.literal v), memo)
  | .path text =>
    match memo.parse text with
    | .ok (p, memo) => (.ok (.path p), memo)
    | .error f => (.error f.toError, memo)

/-- The format of a rule with its name. -/
def findFormat (registry : Registry) (index : Nat) :
    Option String → Outcome (Option (String × Converter))
  | none => .ok none
  | some name =>
    match registry.find "format" name with
    | .ok c => .ok (some (name, c))
    | .error message => .error (.rule index message)

/-- The link of a rule. Its sides come first, then the paths, the left one before the right one, and
then the format. -/
def compileRule (registry : Registry) (memo : PathMemo) (index : Nat) (r : Rule) :
    Outcome Link × PathMemo :=
  match r.sides with
  | .error f => (.error (.rule index f.message), memo)
  | .ok (leftText, rightText) =>
    match compileSide memo leftText with
    | (.error e, memo) => (.error e, memo)
    | (.ok left, memo) =>
      match compileSide memo rightText with
      | (.error e, memo) => (.error e, memo)
      | (.ok right, memo) =>
        ((findFormat registry index r.format).map fun format =>
          ⟨index, left, right, r.transform, format⟩, memo)

/-- The links of rules, the first of which has a place in its plan. -/
def compileRules (registry : Registry) : (memo : PathMemo) → (index : Nat) → List Rule →
    Outcome (List Link) × PathMemo
  | memo, _, [] => (.ok [], memo)
  | memo, index, r :: rest =>
    match compileRule registry memo index r with
    | (.error e, memo) => (.error e, memo)
    | (.ok l, memo) =>
      let (links, memo) := compileRules registry memo (index + 1) rest
      (links.map (l :: ·), memo)

/-- The plan of rules, and the compiler afterwards. -/
def compile (c : Compiler) (rules : List Rule) (order : OrderPolicy) : Outcome Plan × Compiler :=
  let (links, memo) := compileRules c.registry c.memo 0 rules
  (links.map fun ls => ⟨ls, order⟩, { c with memo := memo })

/-! ## Sheets -/

/-- The rule of a written rule, its transform looked up by name. -/
def ruleOfSpec (registry : Registry) (index : Nat) (s : RuleSpec) : Outcome Rule :=
  let rule := fun transform =>
    Rule.mk s.left s.right (s.literal.map Json.toValue) transform s.format
  match s.transform with
  | none => .ok (rule none)
  | some name =>
    match registry.find "transform" name with
    | .ok c => .ok (rule (some c))
    | .error message => .error (.rule index message)

/-- The rules of written rules, the first of which has a place in its plan. -/
def rulesOfSpecs (registry : Registry) : (index : Nat) → List RuleSpec → Outcome (List Rule)
  | _, [] => .ok []
  | index, s :: rest =>
    match ruleOfSpec registry index s with
    | .error e => .error e
    | .ok r => (rulesOfSpecs registry (index + 1) rest).map (r :: ·)

/-- The plan of a sheet, and the compiler afterwards. -/
def compileSheet (c : Compiler) (s : Sheet) : Outcome Plan × Compiler :=
  match rulesOfSpecs c.registry 0 s.rules with
  | .error e => (.error e, c)
  | .ok rules => c.compile rules s.order

end Compiler

end Crosswalk
