import Crosswalk.Proofs.Plan.Compilation
import Crosswalk.Proofs.Plan.Writes

/-!
# When a run fails

A run fails exactly if a link that writes somewhere finds a value at its source that one of its
converters refuses. The error is that of the first such link in the order of the run, and of the
first of its converters that refuses what the one before it made. The document that is being made
and the overrides play no part.

* `Link.stages`: the conversions through which a value passes, with the names that errors give them.
* `Breaks`: the first stage of a row that refuses what reaches it.
* `Link.convert_eq_error_iff`, `Link.apply_eq_error_iff`: when one link fails.
* `applyLinks_eq_error_iff`: the first link that fails, whatever the document that is being made.
* `Plan.run_fails`: when a run fails, and with which error.
-/

namespace Crosswalk

open Value

/-! ## Stages -/

/-- A conversion and the name that errors give it. -/
structure Stage where
  name : String
  conversion : Conversion

/-- The transform of a link as a stage. Its name tells the place of the rule. -/
def Link.transformStage (l : Link) (d : Direction) : List Stage :=
  l.transform.toList.map fun c =>
    ⟨"rule " ++ Decimal.ofNatText l.index ++ " transform", c.apply d⟩

/-- The format of a link as a stage, under its own name. -/
def Link.formatStage (l : Link) (d : Direction) : List Stage :=
  l.format.toList.map fun named => ⟨named.1, named.2.apply d⟩

/-- The stages through which a value passes: to the right the format comes last, to the left it
comes first. -/
def Link.stages (l : Link) : Direction → List Stage
  | .toRight => l.transformStage .toRight ++ l.formatStage .toRight
  | .toLeft => l.formatStage .toLeft ++ l.transformStage .toLeft

/-- `Breaks stages v name message`: of stages that each take what the one before them made, the
first of them `v`, the first that fails is called `name` and says `message`. -/
inductive Breaks : List Stage → Value → (name message : String) → Prop
  | here {s : Stage} {rest : List Stage} {v : Value} {message : String} :
    s.conversion v = .error message → Breaks (s :: rest) v s.name message
  | later {s : Stage} {rest : List Stage} {v w : Value} {name message : String} :
    s.conversion v = .ok w → Breaks rest w name message → Breaks (s :: rest) v name message

/-- A value through stages in a row. -/
def runStages : List Stage → Value → Outcome Value
  | [], v => .ok v
  | s :: rest, v =>
    match s.conversion v with
    | .ok w => runStages rest w
    | .error message => .error (.conversion s.name message)

section Stages

variable {stages : List Stage} {l : Link} {d : Direction} {v : Value} {e : Error}

theorem runStages_append (front back : List Stage) (v : Value) :
    runStages (front ++ back) v = (runStages front v).bind (runStages back) := by
  induction front generalizing v with
  | nil => rfl
  | cons s front ih =>
    rw [List.cons_append, runStages, runStages]
    cases s.conversion v with
    | ok w => exact ih w
    | error message => rfl

theorem Link.applyTransform_eq (l : Link) (d : Direction) (v : Value) :
    l.applyTransform d v = runStages (l.transformStage d) v := by
  unfold applyTransform transformStage
  cases l.transform with
  | none => rfl
  | some c =>
    rw [Option.toList_some, List.map_singleton, runStages]
    cases c.apply d v <;> rfl

theorem Link.applyFormat_eq (l : Link) (d : Direction) (v : Value) :
    l.applyFormat d v = runStages (l.formatStage d) v := by
  unfold applyFormat formatStage
  cases l.format with
  | none => rfl
  | some named =>
    rw [Option.toList_some, List.map_singleton, runStages]
    cases named.2.apply d v <;> rfl

/-- A defined value passes through the stages of a link. -/
theorem Link.convert_eq (hv : v ≠ undefined) : l.convert d v = runStages (l.stages d) v := by
  have hdefined : ¬ v.isUndefined = true := by simpa using hv
  unfold convert
  rw [if_neg hdefined]
  cases d with
  | toRight =>
    rw [stages, runStages_append, applyTransform_eq]
    exact congrArg _ (funext (l.applyFormat_eq .toRight))
  | toLeft =>
    rw [stages, runStages_append, applyFormat_eq]
    exact congrArg _ (funext (l.applyTransform_eq .toLeft))

theorem runStages_eq_error_iff : runStages stages v = .error e ↔
    ∃ name message, Breaks stages v name message ∧ e = .conversion name message := by
  induction stages generalizing v with
  | nil =>
    constructor
    · intro h
      cases h
    · rintro ⟨name, message, h, -⟩
      cases h
  | cons s rest ih =>
    rw [runStages]
    cases hs : s.conversion v with
    | error message =>
      constructor
      · intro h
        exact ⟨s.name, message, .here hs, (Except.error.inj h).symm⟩
      · rintro ⟨name, message', hbreaks, rfl⟩
        cases hbreaks with
        | here h =>
          obtain rfl := Except.error.inj (hs.symm.trans h)
          rfl
        | later h _ => cases hs.symm.trans h
    | ok w =>
      show runStages rest w = .error e ↔ _
      rw [ih]
      constructor
      · rintro ⟨name, message, hbreaks, he⟩
        exact ⟨name, message, .later hs hbreaks, he⟩
      · rintro ⟨name, message, hbreaks, he⟩
        cases hbreaks with
        | here h => cases hs.symm.trans h
        | later h hrest =>
          obtain rfl := Except.ok.inj (hs.symm.trans h)
          exact ⟨name, message, hrest, he⟩

/-- A conversion fails with the error of the first stage that refuses what reaches it. What is
missing passes. -/
theorem Link.convert_eq_error_iff : l.convert d v = .error e ↔
    v ≠ undefined ∧ ∃ name message, Breaks (l.stages d) v name message ∧
      e = .conversion name message := by
  by_cases hv : v = undefined
  · simp [hv, Link.convert, isUndefined]
  · rw [Link.convert_eq hv, runStages_eq_error_iff]
    exact (and_iff_right hv).symm

end Stages

/-! ## Links -/

/-- A link that writes somewhere finds a value at its source that its stages refuse. -/
structure Link.FailsWith (l : Link) (d : Direction) (document : Value) (e : Error) : Prop where
  destination : (l.ends d).2.isPath
  source : (l.ends d).1.read document ≠ undefined
  stage : ∃ name message,
    Breaks (l.stages d) ((l.ends d).1.read document) name message ∧ e = .conversion name message

/-- A link fails with some error. -/
def Link.Fails (l : Link) (d : Direction) (document : Value) : Prop :=
  ∃ e, l.FailsWith d document e

/-- The error of the first link of a row that fails. -/
def FirstFailure (d : Direction) (document : Value) (links : List Link) (e : Error) : Prop :=
  ∃ before l after, links = before ++ l :: after ∧ (∀ m ∈ before, ¬ m.Fails d document) ∧
    l.FailsWith d document e

section Links

variable {d : Direction} {document target : Value} {l : Link} {links : List Link} {e : Error}

/-- A link fails or not whatever the document into which it writes. -/
theorem Link.apply_eq_error_iff : l.apply d document target = .error e ↔
    l.FailsWith d document e := by
  cases hpath : (l.ends d).2.isPath with
  | false =>
    rw [Link.apply_of_not_isPath hpath]
    constructor
    · intro h
      cases h
    · intro h
      have hdestination := h.destination
      rw [hpath] at hdestination
      cases hdestination
  | true =>
    rw [Link.apply_of_isPath hpath, map_eq_error, Link.convert_eq_error_iff]
    constructor
    · rintro ⟨hsource, hstage⟩
      exact ⟨hpath, hsource, hstage⟩
    · intro h
      exact ⟨h.source, h.stage⟩

theorem Link.not_fails_of_apply {next : Value} (h : l.apply d document target = .ok next) :
    ¬ l.Fails d document := by
  rintro ⟨e, hfails⟩
  rw [Link.apply_eq_error_iff.mpr hfails] at h
  cases h

theorem FirstFailure.cons_iff_of_fails {e' : Error} (h : l.FailsWith d document e') :
    FirstFailure d document (l :: links) e ↔ l.FailsWith d document e := by
  constructor
  · rintro ⟨before, m, after, hlinks, hbefore, hm⟩
    cases before with
    | nil =>
      obtain ⟨rfl, -⟩ := List.cons.inj hlinks
      exact hm
    | cons first before =>
      obtain ⟨rfl, -⟩ := List.cons.inj hlinks
      exact absurd ⟨e', h⟩ (hbefore l (by simp))
  · intro hl
    exact ⟨[], l, links, rfl, by simp, hl⟩

theorem FirstFailure.cons_iff_of_not_fails (h : ¬ l.Fails d document) :
    FirstFailure d document (l :: links) e ↔ FirstFailure d document links e := by
  constructor
  · rintro ⟨before, m, after, hlinks, hbefore, hm⟩
    cases before with
    | nil =>
      obtain ⟨rfl, -⟩ := List.cons.inj hlinks
      exact absurd ⟨e, hm⟩ h
    | cons first before =>
      obtain ⟨rfl, rfl⟩ := List.cons.inj hlinks
      exact ⟨before, m, after, rfl, fun k hk => hbefore k (by simp [hk]), hm⟩
  · rintro ⟨before, m, after, rfl, hbefore, hm⟩
    exact ⟨l :: before, m, after, rfl, List.forall_mem_cons.mpr ⟨h, hbefore⟩, hm⟩

/-- Links in a row fail with the error of the first of them that fails, whatever the document that
they write into. -/
theorem applyLinks_eq_error_iff : applyLinks d document target links = .error e ↔
    FirstFailure d document links e := by
  induction links generalizing target with
  | nil =>
    constructor
    · intro h
      cases h
    · rintro ⟨before, l, after, hlinks, -⟩
      cases before <;> cases hlinks
  | cons l links ih =>
    rw [applyLinks]
    cases hl : l.apply d document target with
    | error e' =>
      have hfails := Link.apply_eq_error_iff.mp hl
      rw [FirstFailure.cons_iff_of_fails hfails, ← @Link.apply_eq_error_iff d document target, hl]
    | ok next => rw [FirstFailure.cons_iff_of_not_fails (Link.not_fails_of_apply hl), ← ih]

/-- If any link of a row fails, there is a first one. -/
theorem exists_firstFailure_iff :
    (∃ e, FirstFailure d document links e) ↔ ∃ l ∈ links, l.Fails d document := by
  constructor
  · rintro ⟨e, before, l, after, rfl, -, hl⟩
    exact ⟨l, by simp, e, hl⟩
  · rintro ⟨l, hl, hfails⟩
    induction links with
    | nil => cases hl
    | cons m links ih =>
      by_cases hm : m.Fails d document
      · obtain ⟨e, he⟩ := hm
        exact ⟨e, (FirstFailure.cons_iff_of_fails he).mpr he⟩
      · rcases List.mem_cons.mp hl with rfl | hl
        · exact absurd hfails hm
        · obtain ⟨e, he⟩ := ih hl
          exact ⟨e, (FirstFailure.cons_iff_of_not_fails hm).mpr he⟩

end Links

/-! ## Places -/

/-- Each link of a plan knows its place. -/
def Plan.Numbered (p : Plan) : Prop :=
  ∀ (k : Nat) (l : Link), p.links[k]? = some l → l.index = k

namespace Compiler

variable {registry : Registry} {memo : PathMemo} {index : Nat} {r : Rule} {rules : List Rule}
  {l : Link} {links : List Link} {c : Compiler} {p : Plan}

theorem compileRule_index (h : (compileRule registry memo index r).1 = .ok l) :
    l.index = index := by
  unfold compileRule at h
  split at h
  · cases h
  split at h
  · cases h
  split at h
  · cases h
  obtain ⟨format, -, rfl⟩ := map_eq_ok.mp h
  rfl

theorem compileRules_index (h : (compileRules registry memo index rules).1 = .ok links) :
    ∀ (k : Nat) (l : Link), links[k]? = some l → l.index = index + k := by
  induction rules generalizing memo index links with
  | nil =>
    obtain rfl := Except.ok.inj h
    intro k l hl
    cases hl
  | cons r rules ih =>
    unfold compileRules at h
    cases hr : compileRule registry memo index r with
    | mk link memo' =>
      rw [hr] at h
      cases link with
      | error e => cases h
      | ok first =>
        obtain ⟨rest, hrest, rfl⟩ := map_eq_ok.mp h
        intro k l hl
        cases k with
        | zero =>
          obtain rfl := Option.some.inj hl
          have hfirst : (compileRule registry memo index r).1 = .ok first := by rw [hr]
          exact compileRule_index hfirst
        | succ k =>
          have := ih hrest k l hl
          omega

theorem compile_numbered {order : OrderPolicy} (h : (c.compile rules order).1 = .ok p) :
    p.Numbered := by
  obtain ⟨links, hlinks, rfl⟩ := map_eq_ok.mp h
  intro k l hl
  have := compileRules_index hlinks k l hl
  omega

/-- The links of a plan that a compiler makes are numbered as their rules are declared. -/
theorem call_numbered {request : Call} (h : (c.call request).1 = .ok p) : p.Numbered := by
  cases request with
  | rules rules order => exact compile_numbered h
  | sheet sheet =>
    have hsheet : (c.compileSheet sheet).1 = .ok p := h
    unfold compileSheet at hsheet
    split at hsheet
    · cases hsheet
    · exact compile_numbered hsheet

end Compiler

/-! ## Runs -/

theorem Plan.run_eq_error_iff {p : Plan} {d : Direction} {overrides : Option Value}
    {document : Value} {e : Error} :
    p.run d overrides document = .error e ↔ FirstFailure d document (p.along d) e := by
  rw [Plan.run, map_eq_error, applyLinks_eq_error_iff]

/-- A run fails exactly if a link that writes somewhere finds a value that its stages refuse, and
with the error of the first such link in the order of the run. Whether it fails and how depends
neither on overrides nor on the document that the links write into, and errors name the place at
which a rule was declared. -/
theorem Plan.run_fails (p : Plan) (d : Direction) (overrides : Option Value) (document : Value) :
    ((∃ e, p.run d overrides document = .error e) ↔ ∃ l ∈ p.links, l.Fails d document) ∧
      (∀ e, p.run d overrides document = .error e ↔ FirstFailure d document (p.along d) e) ∧
      (∀ others e, p.run d others document = .error e ↔
        p.run d overrides document = .error e) ∧
      (∀ target e, applyLinks d document target (p.along d) = .error e ↔
        p.run d overrides document = .error e) ∧
      ∀ (c : Compiler) (request : Compiler.Call), (c.call request).1 = .ok p → p.Numbered := by
  refine ⟨?_, ?_, ?_, ?_, ?_⟩
  · have hsome : (∃ e, p.run d overrides document = .error e) ↔
        ∃ e, FirstFailure d document (p.along d) e := by
      simp only [Plan.run_eq_error_iff]
    rw [hsome, exists_firstFailure_iff]
    simp only [Plan.mem_along]
  · intro e
    exact Plan.run_eq_error_iff
  · intro others e
    rw [Plan.run_eq_error_iff, Plan.run_eq_error_iff]
  · intro target e
    rw [Plan.run_eq_error_iff, applyLinks_eq_error_iff]
  · intro c request h
    exact Compiler.call_numbered h

/-- Two rules between whole documents, of which the second one also has a format. -/
def jsonRules : List Rule :=
  [⟨some "", some "", none, some Converter.jsonText, none⟩,
    ⟨some "", some "", none, some Converter.jsonText, some "string"⟩]

/-- The link of the second rule. -/
def jsonLink : Link :=
  ⟨1, .path ⟨[], ""⟩, .path ⟨[], ""⟩, some Converter.jsonText,
    some ("string", Converter.scalarText)⟩

/-- The links of these rules, the last one first to the left. -/
def jsonPlan : Plan where
  links := [⟨0, .path ⟨[], ""⟩, .path ⟨[], ""⟩, some Converter.jsonText, none⟩, jsonLink]
  order := ⟨.descending, .ascending⟩

theorem call_jsonRules :
    ((Compiler.ofRegistry .standard).call (.rules jsonRules ⟨.descending, .ascending⟩)).1
      = .ok jsonPlan := by
  rfl

theorem jsonLink_failsWith : jsonLink.FailsWith .toLeft (map [])
    (.conversion "rule 1 transform" "expected JSON text, found map") := by
  have hread : (jsonLink.ends .toLeft).1.read (map []) = map [] := by
    simp [jsonLink, Link.ends, Side.read, Path.segments, extract]
  have hname : "rule " ++ Decimal.ofNatText 1 ++ " transform" = "rule 1 transform" := by
    decide +kernel
  have hstages : jsonLink.stages .toLeft
      = [⟨"string", Converter.readScalar⟩, ⟨"rule 1 transform", Converter.readJson⟩] := by
    rw [← hname]
    rfl
  refine ⟨rfl, ?_, "rule 1 transform", "expected JSON text, found map", ?_, rfl⟩
  · rw [hread]
    simp
  · rw [hread, hstages]
    exact .later rfl (.here rfl)

/-- Both rules would refuse a map. The second one runs first, its format passes the map on, and its
transform fails. -/
theorem Plan.run_fails_jsonPlan :
    jsonPlan.Numbered ∧ jsonPlan.run .toLeft none (map [])
      = .error (.conversion "rule 1 transform" "expected JSON text, found map") := by
  obtain ⟨-, hfirst, -, -, hnumbered⟩ := Plan.run_fails jsonPlan .toLeft none (map [])
  have hlast : jsonPlan.along .toLeft = jsonPlan.links.reverse := rfl
  refine ⟨hnumbered _ _ call_jsonRules, (hfirst _).mpr ?_⟩
  exact ⟨[], jsonLink, _, hlast, by simp, jsonLink_failsWith⟩

end Crosswalk
