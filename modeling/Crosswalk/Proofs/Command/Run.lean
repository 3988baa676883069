import Crosswalk.Command.Run
import Crosswalk.Proofs.Command.Action
import Crosswalk.Proofs.Command.Folder
import Mathlib.Data.List.Basic

/-!
# What a command changes

A command that fails changes nothing. One that succeeds has printed one text or written one file:
the line of a check, or the text of its result. Everything else that it does is reading.

* `Options.HasPlan`, `Options.HasDocument`, `Options.HasOverrides`: what a command finds in a world.
* `Options.Makes`: the text of its result there.
* `Options.Delivered`: where that text is if the command succeeds.
* `Options.run_check_eq_ok_iff`, `Options.run_eq_ok_iff`: when a command succeeds, and how the world
  is then.
* `Options.all_or_nothing`: all of this together.
-/

namespace Crosswalk

open World

variable {o : Options} {c : Console} {w w' : World}

namespace Options

/-! ## What a command finds -/

/-- What a file holds as a text. -/
def HasText (c : Console) (w : World) (path text : String) : Prop :=
  fileText path (w.root.read c.here path) = .ok text

/-- The plan of a command: the sheet in its file, compiled. -/
def HasPlan (o : Options) (c : Console) (w : World) (p : Plan) : Prop :=
  ∃ path format text sheet, o.plan = some path ∧ o.findPlanFormat path = .ok format ∧
    HasText c w path text ∧ format.readSheet text = .ok sheet ∧
      ((Compiler.ofRegistry .standard).compileSheet sheet).1 = .ok p

/-- The text of the document of a command: that of a file, or standard input. -/
def HasInput (o : Options) (c : Console) (w : World) (text : String) : Prop :=
  match o.input with
  | some path => HasText c w path text
  | none => inputText c.input = .ok text

/-- The document of a command, read in its format. -/
def HasDocument (o : Options) (c : Console) (w : World) (document : Value) : Prop :=
  ∃ text format, o.HasInput c w text ∧ o.findInputFormat = .ok format ∧
    format.read text = .ok document

/-- The overrides of a command, read in the format of their file or that of the document. -/
def HasOverrides (o : Options) (c : Console) (w : World) (overrides : Option Value) : Prop :=
  match o.overrides with
  | none => overrides = none
  | some path => ∃ text format v, HasText c w path text ∧ o.findInputFormat = .ok format ∧
      ((Format.ofPath? path).getD format).read text = .ok v ∧ overrides = some v

/-- A value as a text in the format of the result. -/
def HasRendering (o : Options) (c : Console) (v : Value) (text : String) : Prop :=
  ∃ format, o.findOutputFormat = .ok format ∧ format.write (o.isPretty c.isTerminal) v = .ok text

/-- The text of the result of a command: the value at the path to extract, or what the plan makes of
the document and the overrides. -/
inductive Makes (o : Options) (c : Console) (w : World) : (text : String) → Prop
  | extracted {pathText text : String} {path : Path} {document : Value} :
    o.extract = some pathText → Path.parse pathText = .ok path → o.HasDocument c w document →
    o.HasRendering c (Crosswalk.extract path.segments document) text → Makes o c w text
  | mapped {d : Direction} {p : Plan} {document result : Value} {overrides : Option Value}
    {text : String} :
    o.extract = none → o.findDirection = .ok d → o.HasPlan c w p → o.HasDocument c w document →
    o.HasOverrides c w overrides → p.run d overrides document = .ok result →
    o.HasRendering c result text → Makes o c w text

/-! ## What a command changes -/

/-- A text was printed, or written to the file that is named for it. -/
inductive Delivered (o : Options) (c : Console) (text : String) (w : World) : World → Prop
  | printed : o.output = none → Delivered o c text w { w with printed := w.printed ++ text }
  | saved {path : String} {root : Folder} : o.output = some path →
    Folder.Written w.root root c.here path text.toUTF8 →
    Delivered o c text w { w with root }

/-- Two commands check one plan. They may differ in their documents, their overrides, and in what
else there is around them. -/
structure ChecksSame (o o' : Options) (c c' : Console) (w w' : World) : Prop where
  options : o' = { o with input := o'.input, overrides := o'.overrides }
  plan : ∀ path, o.plan = some path → w'.root.read c'.here path = w.root.read c.here path
  printed : w'.printed = w.printed

/-! ## Reading -/

section Reading

variable {path text : String} {format : Format} {v : Value}

theorem run_text (c : Console) (w : World) (path : String) :
    w.run (c.system.text path) = (fileText path (w.root.read c.here path), w) := rfl

theorem run_stdinText (c : Console) (w : World) :
    w.run c.system.stdinText = (inputText c.input, w) := rfl

theorem stays_text : w.Stays (c.system.text path) := rfl

theorem gives_text_iff : w.Gives (c.system.text path) text ↔ HasText c w path text := by
  rw [Gives, run_text, HasText]
  simp

theorem stays_readDocument : w.Stays (o.readDocument c.system) := by
  unfold readDocument
  cases o.input with
  | none => rfl
  | some path => exact stays_text

theorem gives_readDocument_iff :
    w.Gives (o.readDocument c.system) text ↔ o.HasInput c w text := by
  unfold readDocument HasInput
  cases o.input with
  | none =>
    rw [Gives, run_stdinText]
    simp
  | some path => exact gives_text_iff

theorem stays_loadPlan : w.Stays (o.loadPlan c.system) := by
  unfold loadPlan
  refine Stays.bind (stays_lift _) fun path _ => ?_
  refine Stays.bind (stays_lift _) fun format _ => ?_
  refine Stays.bind stays_text fun text _ => ?_
  exact Stays.bind (stays_lift _) fun sheet _ => stays_lift _

theorem findPlan_eq_ok_iff : o.findPlan = .ok path ↔ o.plan = some path := by
  unfold findPlan
  cases o.plan <;> simp

theorem gives_loadPlan_iff {p : Plan} :
    w.Gives (o.loadPlan c.system) p ↔ o.HasPlan c w p := by
  unfold loadPlan HasPlan
  simp only [(stays_lift _).gives_bind_iff, stays_text.gives_bind_iff, gives_lift_iff,
    gives_text_iff, findPlan_eq_ok_iff, exists_and_left]

theorem stays_loadOverrides : w.Stays (o.loadOverrides c.system format) := by
  unfold loadOverrides
  cases o.overrides with
  | none => exact stays_pure _
  | some path =>
    refine Stays.bind stays_text fun text _ => ?_
    exact Stays.bind (stays_lift _) fun v _ => stays_pure _

theorem gives_loadOverrides_iff {overrides : Option Value}
    (hformat : o.findInputFormat = .ok format) :
    w.Gives (o.loadOverrides c.system format) overrides ↔ o.HasOverrides c w overrides := by
  unfold loadOverrides HasOverrides
  cases o.overrides with
  | none => rw [gives_pure_iff, eq_comm]
  | some path =>
    simp only [stays_text.gives_bind_iff, (stays_lift _).gives_bind_iff, gives_lift_iff,
      gives_text_iff, gives_pure_iff]
    constructor
    · rintro ⟨text, htext, v, hv, rfl⟩
      exact ⟨text, format, v, htext, hformat, hv, rfl⟩
    · rintro ⟨text, format', v, htext, hformat', hv, rfl⟩
      obtain rfl := Except.ok.inj (hformat.symm.trans hformat')
      exact ⟨text, htext, v, hv, rfl⟩

theorem run_render (c : Console) (w : World) : w.run (o.render c.system format v)
    = (format.write (o.isPretty c.isTerminal) v, w) := rfl

theorem stays_render : w.Stays (o.render c.system format v) := rfl

theorem gives_render_iff : w.Gives (o.render c.system format v) text ↔
    format.write (o.isPretty c.isTerminal) v = .ok text := by
  rw [Gives, run_render]
  simp

/-- The result of a load of a plan depends on the file of the plan alone. -/
theorem loadPlan_congr {o' : Options} {c' : Console} (hplan : o'.plan = o.plan)
    (hformat : o'.planFormat = o.planFormat)
    (hread : ∀ path, o.plan = some path →
      w'.root.read c'.here path = w.root.read c.here path) :
    (w'.run (o'.loadPlan c'.system)).1 = (w.run (o.loadPlan c.system)).1 := by
  unfold loadPlan
  refine Stays.result_bind_congr (stays_lift _) (stays_lift _) ?_ fun path hpath => ?_
  · unfold findPlan
    rw [hplan]
    rfl
  refine Stays.result_bind_congr (stays_lift _) (stays_lift _) ?_ fun format _ => ?_
  · unfold findPlanFormat
    rw [hformat]
    rfl
  refine Stays.result_bind_congr stays_text stays_text ?_ fun text _ => ?_
  · have hfile := hread path (findPlan_eq_ok_iff.mp (gives_lift_iff.mp hpath))
    rw [run_text, run_text, hfile]
  exact Stays.result_bind_congr (stays_lift _) (stays_lift _) rfl fun sheet _ => rfl

end Reading

/-! ## Writing -/

section Writing

variable {text : String}

theorem run_print (c : Console) (w : World) (text : String) :
    w.run (liftM (c.system.print text)) = (.ok (), w.say text) := rfl

theorem run_deliver_of_print (text : String) (h : o.output = none) :
    w.run (o.deliver c.system text) = (.ok (), w.say text) := by
  unfold deliver
  rw [h]
  rfl

theorem run_save (c : Console) (w : World) (path text : String) :
    StateT.run (c.system.save path text) w = w.save c.here path text := by
  simp only [Console.system, StateT.run_modifyGet]
  generalize w.save c.here path text = result
  rfl

/-- A file that cannot be written leaves the world. -/
theorem run_deliver_of_save {path : String} (text : String) (h : o.output = some path) :
    w.run (o.deliver c.system text) = match w.root.write c.here path text.toUTF8 with
      | .ok root => (.ok (), { w with root })
      | .error f => (.error (.io (path ++ ": " ++ f.message)), w) := by
  unfold deliver World.run
  simp only [h]
  rw [ExceptT.run_mk, StateT.run_bind, run_save, World.save]
  cases w.root.write c.here path text.toUTF8 <;> rfl

theorem deliver_staysOnError : w.StaysOnError (o.deliver c.system text) := by
  intro e w' he
  cases houtput : o.output with
  | none =>
    rw [run_deliver_of_print _ houtput] at he
    cases he
  | some path =>
    rw [run_deliver_of_save _ houtput] at he
    split at he
    · cases he
    · exact (Prod.mk.inj he).2.symm

theorem delivered_of_run (h : w.run (o.deliver c.system text) = (.ok (), w')) :
    Delivered o c text w w' := by
  cases houtput : o.output with
  | none =>
    rw [run_deliver_of_print _ houtput] at h
    obtain rfl := (Prod.mk.inj h).2
    exact .printed houtput
  | some path =>
    rw [run_deliver_of_save _ houtput] at h
    split at h
    · next root hroot =>
      obtain rfl := (Prod.mk.inj h).2
      exact .saved houtput (Folder.written_of_write hroot)
    · cases h

end Writing

/-! ## Commands -/

section Commands

variable {d : Direction} {p : Plan} {pathText : String}

/-- An extraction succeeds if the text of its result can be made and delivered. -/
theorem run_runExtract_eq_ok_iff : w.run (o.runExtract c.system pathText) = (.ok (), w') ↔
    ∃ path document text, Path.parse pathText = .ok path ∧ o.HasDocument c w document ∧
      o.HasRendering c (Crosswalk.extract path.segments document) text ∧
      w.run (o.deliver c.system text) = (.ok (), w') := by
  unfold runExtract HasDocument HasRendering
  simp only [(stays_lift _).run_bind_eq_ok_iff, stays_readDocument.run_bind_eq_ok_iff,
    stays_render.run_bind_eq_ok_iff, gives_lift_iff, gives_readDocument_iff, gives_render_iff]
  constructor
  · rintro ⟨path, hpath, text, htext, format, hformat, document, hdocument, format', hformat',
      result, hresult, hdone⟩
    refine ⟨path, document, result, ?_, ⟨text, format, htext, hformat, hdocument⟩,
      ⟨format', hformat', hresult⟩, hdone⟩
    cases hparse : Path.parse pathText with
    | error f => rw [hparse] at hpath; cases hpath
    | ok q => rw [hparse] at hpath; rw [Except.ok.inj hpath]
  · rintro ⟨path, document, result, hpath, ⟨text, format, htext, hformat, hdocument⟩,
      ⟨format', hformat', hresult⟩, hdone⟩
    exact ⟨path, by rw [hpath]; rfl, text, htext, format, hformat, document, hdocument, format',
      hformat', result, hresult, hdone⟩

theorem runExtract_staysOnError : w.StaysOnError (o.runExtract c.system pathText) := by
  unfold runExtract
  refine Stays.bind_staysOnError (stays_lift _) fun path _ => ?_
  refine Stays.bind_staysOnError stays_readDocument fun text _ => ?_
  refine Stays.bind_staysOnError (stays_lift _) fun format _ => ?_
  refine Stays.bind_staysOnError (stays_lift _) fun document _ => ?_
  refine Stays.bind_staysOnError (stays_lift _) fun format _ => ?_
  exact Stays.bind_staysOnError stays_render fun text _ => deliver_staysOnError

/-- A run of a plan succeeds if the text of its result can be made and delivered. -/
theorem run_runPlan_eq_ok_iff : w.run (o.runPlan c.system d p) = (.ok (), w') ↔
    ∃ document overrides result text, o.HasDocument c w document ∧ o.HasOverrides c w overrides ∧
      p.run d overrides document = .ok result ∧ o.HasRendering c result text ∧
      w.run (o.deliver c.system text) = (.ok (), w') := by
  unfold runPlan HasDocument HasRendering
  simp only [(stays_lift _).run_bind_eq_ok_iff, stays_readDocument.run_bind_eq_ok_iff,
    stays_loadOverrides.run_bind_eq_ok_iff, stays_render.run_bind_eq_ok_iff, gives_lift_iff,
    gives_readDocument_iff, gives_render_iff]
  constructor
  -- The overrides are looked for with the format of the document, which is known by then.
  · rintro ⟨format, hformat, format', hformat', text, htext, document, hdocument, overrides,
      hoverrides, result, hresult, out, hout, hdone⟩
    exact ⟨document, overrides, result, out, ⟨text, format, htext, hformat, hdocument⟩,
      (gives_loadOverrides_iff hformat).mp hoverrides, hresult, ⟨format', hformat', hout⟩, hdone⟩
  · rintro ⟨document, overrides, result, out, ⟨text, format, htext, hformat, hdocument⟩,
      hoverrides, hresult, ⟨format', hformat', hout⟩, hdone⟩
    exact ⟨format, hformat, format', hformat', text, htext, document, hdocument, overrides,
      (gives_loadOverrides_iff hformat).mpr hoverrides, result, hresult, out, hout, hdone⟩

theorem runPlan_staysOnError : w.StaysOnError (o.runPlan c.system d p) := by
  unfold runPlan
  refine Stays.bind_staysOnError (stays_lift _) fun format _ => ?_
  refine Stays.bind_staysOnError (stays_lift _) fun format' _ => ?_
  refine Stays.bind_staysOnError stays_readDocument fun text _ => ?_
  refine Stays.bind_staysOnError (stays_lift _) fun document _ => ?_
  refine Stays.bind_staysOnError stays_loadOverrides fun overrides _ => ?_
  refine Stays.bind_staysOnError (stays_lift _) fun result _ => ?_
  exact Stays.bind_staysOnError stays_render fun text _ => deliver_staysOnError

/-- What comes of a check is settled by the direction and by what the load of the plan comes to. -/
theorem run_check (hextract : o.extract = none) (hcheck : o.check = true) :
    w.run (o.run c.system) = match o.findDirection, (w.run (o.loadPlan c.system)).1 with
      | .error e, _ => (.error e, w)
      | .ok _, .error e => (.error e, w)
      | .ok _, .ok p => (.ok (), w.say (checkText p)) := by
  unfold run
  rw [run_bind, run_lift]
  cases o.findDirection with
  | error e => rfl
  | ok d =>
    simp only [hextract, hcheck, if_true]
    rw [run_bind, stays_loadPlan.run_eq]
    cases (w.run (o.loadPlan c.system)).1 <;> rfl

/-- Checks of one plan come to the same and print the same. -/
theorem run_check_congr {o' : Options} {c' : Console} (hextract : o.extract = none)
    (hcheck : o.check = true) (h : ChecksSame o o' c c' w w') :
    (w'.run (o'.run c'.system)).1 = (w.run (o.run c.system)).1 ∧
      (w'.run (o'.run c'.system)).2.printed = (w.run (o.run c.system)).2.printed := by
  have hoptions := h.options
  have hdirection : o'.findDirection = o.findDirection := by rw [hoptions]; rfl
  have hplan : (w'.run (o'.loadPlan c'.system)).1 = (w.run (o.loadPlan c.system)).1 :=
    loadPlan_congr (by rw [hoptions]) (by rw [hoptions]) h.plan
  rw [run_check hextract hcheck,
    run_check (o := o') (by rw [hoptions, hextract]) (by rw [hoptions, hcheck]), hdirection, hplan]
  split
  · exact ⟨rfl, h.printed⟩
  · exact ⟨rfl, h.printed⟩
  · exact ⟨rfl, by simp [World.say, h.printed]⟩

/-- A check that succeeds has found a plan, and has printed its line. -/
theorem run_check_eq_ok_iff (hextract : o.extract = none) (hcheck : o.check = true) :
    w.run (o.run c.system) = (.ok (), w') ↔
      (∃ d, o.findDirection = .ok d) ∧ ∃ p, o.HasPlan c w p ∧ w' = w.say (checkText p) := by
  unfold run
  simp only [(stays_lift _).run_bind_eq_ok_iff, gives_lift_iff, hextract, hcheck, if_true,
    stays_loadPlan.run_bind_eq_ok_iff, gives_loadPlan_iff, run_print]
  constructor
  · rintro ⟨d, hd, p, hp, hdone⟩
    exact ⟨⟨d, hd⟩, p, hp, (Prod.mk.inj hdone).2.symm⟩
  · rintro ⟨⟨d, hd⟩, p, hp, rfl⟩
    exact ⟨d, hd, p, hp, rfl⟩

/-- A command that does not only check its plan succeeds if the text of its result can be made and
delivered. -/
theorem run_eq_ok_iff (h : o.extract.isSome ∨ o.check = false) :
    w.run (o.run c.system) = (.ok (), w') ↔ (∃ d, o.findDirection = .ok d) ∧
      ∃ text, o.Makes c w text ∧ w.run (o.deliver c.system text) = (.ok (), w') := by
  unfold run
  simp only [(stays_lift _).run_bind_eq_ok_iff, gives_lift_iff]
  cases hextract : o.extract with
  | some pathText =>
    simp only [run_runExtract_eq_ok_iff]
    constructor
    · rintro ⟨d, hd, path, document, text, hpath, hdocument, htext, hdone⟩
      exact ⟨⟨d, hd⟩, text, .extracted hextract hpath hdocument htext, hdone⟩
    · rintro ⟨⟨d, hd⟩, text, hmakes, hdone⟩
      cases hmakes with
      | extracted hextract' hpath hdocument htext =>
        obtain rfl := Option.some.inj (hextract.symm.trans hextract')
        exact ⟨d, hd, _, _, text, hpath, hdocument, htext, hdone⟩
      | mapped hextract' => simp [hextract] at hextract'
  | none =>
    have hcheck : o.check = false := by simpa [hextract] using h
    simp only [hcheck, stays_loadPlan.run_bind_eq_ok_iff, gives_loadPlan_iff, Bool.false_eq_true,
      if_false, run_runPlan_eq_ok_iff]
    constructor
    · rintro ⟨d, hd, p, hp, document, overrides, result, text, hdocument, hoverrides, hresult,
        htext, hdone⟩
      exact ⟨⟨d, hd⟩, text, .mapped hextract hd hp hdocument hoverrides hresult htext, hdone⟩
    · rintro ⟨-, text, hmakes, hdone⟩
      cases hmakes with
      | extracted hextract' => simp [hextract] at hextract'
      | mapped _ hd hp hdocument hoverrides hresult htext =>
        exact ⟨_, hd, _, hp, _, _, _, text, hdocument, hoverrides, hresult, htext, hdone⟩

theorem run_staysOnError : w.StaysOnError (o.run c.system) := by
  unfold run
  refine Stays.bind_staysOnError (stays_lift _) fun d _ => ?_
  cases o.extract with
  | some pathText => exact runExtract_staysOnError
  | none =>
    refine Stays.bind_staysOnError stays_loadPlan fun p _ => ?_
    split
    · intro e w' he
      rw [run_print] at he
      cases he
    · exact runPlan_staysOnError

end Commands

/-- A command is all or nothing. If it fails, nothing has been written or printed. A check that
succeeds has printed one line, with the number of rules of its plan, and written nothing, and
neither what it comes to nor what it prints depends on anything but the plan. Any other command that
succeeds has made the text of its result of what it found, and has printed it, or written it to the
file that is named for it and nowhere else. -/
theorem all_or_nothing (o : Options) (c : Console) (w : World) :
    (∀ e w', w.run (o.run c.system) = (.error e, w') → w' = w) ∧
    (o.extract = none → o.check = true →
      (∀ w', w.run (o.run c.system) = (.ok (), w') →
        ∃ p, o.HasPlan c w p ∧ w'.root = w.root ∧
          w'.printed = w.printed
            ++ ("plan valid (" ++ Decimal.ofNatText p.links.length ++ " rules)\n")) ∧
      ∀ o' c' w', ChecksSame o o' c c' w w' →
        (w'.run (o'.run c'.system)).1 = (w.run (o.run c.system)).1 ∧
          (w'.run (o'.run c'.system)).2.printed = (w.run (o.run c.system)).2.printed) ∧
    (o.extract.isSome ∨ o.check = false →
      ∀ w', w.run (o.run c.system) = (.ok (), w') →
        ∃ text, o.Makes c w text ∧ Delivered o c text w w') := by
  refine ⟨run_staysOnError, fun hextract hcheck => ⟨fun w' hok => ?check, ?same⟩,
    fun h w' hok => ?result⟩
  case check =>
    obtain ⟨-, p, hp, rfl⟩ := (run_check_eq_ok_iff hextract hcheck).mp hok
    exact ⟨p, hp, rfl, rfl⟩
  case same => exact fun o' c' w' hsame => run_check_congr hextract hcheck hsame
  case result =>
    obtain ⟨-, text, hmakes, hdone⟩ := (run_eq_ok_iff h).mp hok
    exact ⟨text, hmakes, delivered_of_run hdone⟩

/-! ## A command that writes, one that checks and one that fails -/

/-- A command finds no two plans. -/
theorem HasPlan.unique {p q : Plan} (hp : o.HasPlan c w p) (hq : o.HasPlan c w q) : p = q := by
  have hsame := (gives_loadPlan_iff.mpr hp).symm.trans (gives_loadPlan_iff.mpr hq)
  exact Except.ok.inj (Prod.mk.inj hsame).1

theorem textRead_toUTF8 (s : String) : textRead (.ok s.toUTF8) = .ok s := by
  have hbytes : String.fromUTF8? s.toUTF8 = some s := by
    unfold String.fromUTF8?
    rw [String.toUTF8_eq_toByteArray, dif_pos s.isValidUTF8]
    rfl
  simp only [textRead, textOfBytes, hbytes]

/-- The first element of the array on standard input, to a file. -/
def firstElement : Options where
  plan := none
  planFormat := none
  input := none
  output := some "first.json"
  direction := "right"
  overrides := none
  inputFormat := none
  outputFormat := none
  pretty := false
  compact := false
  check := false
  extract := some "[0]"

/-- A check of a plan. -/
def planCheck : Options :=
  { firstElement with plan := some "plan.json", output := none, check := true, extract := none }

/-- A check of a plan that is not there. -/
def lostCheck : Options := { planCheck with plan := some "lost.json" }

/-- A console at the root, with an array on standard input. -/
def desk : Console := ⟨[], .ok "[7]".toUTF8, false⟩

/-- The sheet of a plan with two rules, each of them between whole documents. -/
def copySheet : String :=
  "\x7b\"rules\":[\x7b\"left\":\"\",\"right\":\"\"\x7d,\x7b\"left\":\"\",\"right\":\"\"\x7d]\x7d"

/-- The plan of the sheet. -/
def copyPlan : Plan where
  links := [⟨0, .path ⟨[], ""⟩, .path ⟨[], ""⟩, none, none⟩,
    ⟨1, .path ⟨[], ""⟩, .path ⟨[], ""⟩, none, none⟩]
  order := .declared

/-- The sheet in a file, and a text that has been printed before. -/
def planWorld : World := ⟨[("plan.json", .file copySheet.toUTF8)], "ready\n"⟩

/-- The same world with the first element in a file. -/
def elementWorld : World :=
  { planWorld with root := planWorld.root ++ [("first.json", .file "7\n".toUTF8)] }

theorem firstElement_document : firstElement.HasDocument desk planWorld (.array [.int 7]) := by
  have hparse : Json.parse "[7]" = .ok (.array [.number (.natural 7)]) := by rfl
  refine ⟨"[7]", .json, ?_, rfl, ?_⟩
  · change (textRead (.ok "[7]".toUTF8)).mapError _ = _
    rw [textRead_toUTF8]
    rfl
  · rw [Format.read, hparse]
    simp [Except.map, Json.toValue, Number.toValue]

theorem firstElement_makes : firstElement.Makes desk planWorld "7\n" := by
  have hpath : Path.parse "[0]" = .ok ⟨[⟨.index 0, "[0]", 0⟩], "[0]"⟩ := by decide +kernel
  have hwrite : Format.json.write true (.int 7) = .ok "7\n" := by
    rw [Format.write, Json.ofValue]
    decide +kernel
  have hrendering : firstElement.HasRendering desk (.int 7) "7\n" :=
    ⟨.json, by decide +kernel, hwrite⟩
  exact .extracted rfl hpath firstElement_document hrendering

theorem firstElement_direction : firstElement.findDirection = .ok .toRight := by decide +kernel

theorem firstElement_run :
    planWorld.run (firstElement.run desk.system) = (.ok (), elementWorld) := by
  have hwrite : planWorld.root.write desk.here "first.json" "7\n".toUTF8
      = .ok elementWorld.root := rfl
  have hdone := run_deliver_of_save (c := desk) (w := planWorld) "7\n"
    (show firstElement.output = some "first.json" from rfl)
  rw [hwrite] at hdone
  exact (run_eq_ok_iff (.inl rfl)).mpr
    ⟨⟨_, firstElement_direction⟩, _, firstElement_makes, hdone⟩

/-- Nothing but this text can have been delivered. -/
theorem eq_of_delivered_elementWorld {text : String}
    (h : Delivered firstElement desk text planWorld elementWorld) : text = "7\n" := by
  generalize hafter : elementWorld = after at h
  cases h with
  | printed hnone => cases hnone
  | @saved path root hpath hwritten =>
    obtain rfl : "first.json" = path := Option.some.inj hpath
    obtain rfl : elementWorld.root = root := congrArg World.root hafter
    have hread : elementWorld.root.read desk.here "first.json" = .ok "7\n".toUTF8 := rfl
    exact String.toByteArray_inj.mp (Except.ok.inj (hwritten.reads.symm.trans hread))

theorem planCheck_plan : planCheck.HasPlan desk planWorld copyPlan := by
  have hformat : planCheck.findPlanFormat "plan.json" = .ok .json := by decide +kernel
  have hsheet : Format.readSheet .json copySheet
      = .ok ⟨.declared, [⟨some "", some "", none, none, none⟩,
        ⟨some "", some "", none, none, none⟩]⟩ := by rfl
  have htext : HasText desk planWorld "plan.json" copySheet := by
    change (textRead (.ok copySheet.toUTF8)).mapError _ = _
    rw [textRead_toUTF8]
    rfl
  exact ⟨"plan.json", .json, copySheet, _, rfl, hformat, htext, hsheet, rfl⟩

theorem planCheck_run : ∃ w', planWorld.run (planCheck.run desk.system) = (.ok (), w') :=
  ⟨_, (run_check_eq_ok_iff rfl rfl).mpr
    ⟨⟨_, firstElement_direction⟩, _, planCheck_plan, rfl⟩⟩

theorem lostCheck_run : ∃ w', planWorld.run (lostCheck.run desk.system)
    = (.error (.io "lost.json: No such file or directory (os error 2)"), w') := by
  have hload : (planWorld.run (lostCheck.loadPlan desk.system)).1
      = .error (.io "lost.json: No such file or directory (os error 2)") := by
    unfold loadPlan
    rfl
  have hdirection : lostCheck.findDirection = .ok .toRight := firstElement_direction
  rw [run_check rfl rfl, hdirection, hload]
  exact ⟨_, rfl⟩

/-- The element is in a file of its own and nothing is printed. The check prints its line behind
what was printed before and writes nothing. The check of what is not there leaves the world. -/
theorem all_or_nothing_planWorld :
    planWorld.run (lostCheck.run desk.system)
      = (.error (.io "lost.json: No such file or directory (os error 2)"), planWorld) ∧
    (planWorld.run (firstElement.run desk.system) = (.ok (), elementWorld) ∧
      firstElement.Makes desk planWorld "7\n" ∧
      Delivered firstElement desk "7\n" planWorld elementWorld) ∧
    ∃ w', planWorld.run (planCheck.run desk.system) = (.ok (), w') ∧
      planCheck.HasPlan desk planWorld copyPlan ∧ w'.root = planWorld.root ∧
      w'.printed = "ready\nplan valid (2 rules)\n" := by
  obtain ⟨-, -, hresult⟩ := all_or_nothing firstElement desk planWorld
  obtain ⟨-, hline, -⟩ := all_or_nothing planCheck desk planWorld
  refine ⟨?_, ⟨firstElement_run, ?_⟩, ?_⟩
  · obtain ⟨w', hrun⟩ := lostCheck_run
    obtain rfl := (all_or_nothing lostCheck desk planWorld).1 _ w' hrun
    exact hrun
  · obtain ⟨text, hmakes, hdelivered⟩ := hresult (.inl rfl) _ firstElement_run
    obtain rfl := eq_of_delivered_elementWorld hdelivered
    exact ⟨hmakes, hdelivered⟩
  · obtain ⟨w', hrun⟩ := planCheck_run
    obtain ⟨p, hp, hroot, hprinted⟩ := (hline rfl rfl).1 w' hrun
    obtain rfl := hp.unique planCheck_plan
    exact ⟨w', hrun, hp, hroot, hprinted.trans (by decide +kernel)⟩

end Options

end Crosswalk
