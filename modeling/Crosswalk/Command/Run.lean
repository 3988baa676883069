import Crosswalk.Command.Options
import Crosswalk.Command.System
import Crosswalk.Format
import Crosswalk.Plan.Compiler
import Crosswalk.Plan.Run

/-!
# Running a command

A command goes through its steps one after the other and ends with the first one that fails. It
prints a text or writes a file only when everything else is done.

* `Options.loadPlan`, `Options.readDocument`, `Options.loadOverrides`: what a command reads.
* `Options.run`: a command, step by step.
* `Options.runIn`: the folder after a command that runs in it, and the text that it has printed.
-/

namespace Crosswalk

/-! ## Formats of files -/

/-- A format is suggested for a name within this many edits. -/
def formatSuggestionBound : Nat := 2

/-- The format of a name; `role` is the word for what it is the format of. -/
def Format.find (role name : String) : Outcome Format :=
  match Format.ofName? name with
  | some f => .ok f
  | none =>
    let unknown := "unknown " ++ role ++ " format: '" ++ name ++ "'"
    .error (.usage (match Text.closest? formatSuggestionBound Format.names name with
      | some other => unknown ++ " (did you mean '" ++ other ++ "'?)"
      | none => unknown))

/-! ## Texts of files -/

/-- The text of bytes. -/
def textOfBytes (bytes : ByteArray) : Except String String :=
  match String.fromUTF8? bytes with
  | some s => .ok s
  | none => .error "stream did not contain valid UTF-8"

/-- The text that was read, or the words for why there is none. -/
def textRead (answer : Except FileFault ByteArray) : Except String String :=
  match answer with
  | .error f => .error f.message
  | .ok bytes => textOfBytes bytes

/-- The text that was read from a file. -/
def fileText (path : String) (answer : Except FileFault ByteArray) : Outcome String :=
  (textRead answer).mapError fun m => .io (path ++ ": " ++ m)

/-- The text that was read from standard input. -/
def inputText (answer : Except FileFault ByteArray) : Outcome String :=
  (textRead answer).mapError .io

variable {m : Type → Type} [Monad m]

/-- The text of a file of a system. -/
def System.text (sys : System m) (path : String) : ExceptT Error m String :=
  .mk do return fileText path (← sys.file path)

/-- The text of the standard input of a system. -/
def System.stdinText (sys : System m) : ExceptT Error m String :=
  .mk do return inputText (← sys.input)

namespace Options

/-! ## What options ask for -/

def findDirection (o : Options) : Outcome Direction :=
  match Direction.ofName? o.direction with
  | some d => .ok d
  | none =>
    .error (.usage ("unknown direction: '" ++ o.direction ++ "' (expected 'right' or 'left')"))

/-- The format of the document: by name, by the extension of its file, or JSON on standard input. -/
def findInputFormat (o : Options) : Outcome Format :=
  match o.inputFormat, o.input with
  | some name, _ => Format.find "input" name
  | none, none => .ok .json
  | none, some path =>
    match Format.ofPath? path with
    | some f => .ok f
    | none =>
      .error (.usage ("cannot detect format from '" ++ path ++ "', use -f/--from to specify"))

/-- The format of the result: by name, by the extension of its file, or that of the document. -/
def findOutputFormat (o : Options) : Outcome Format :=
  match o.outputFormat, o.output.bind Format.ofPath? with
  | some name, _ => Format.find "output" name
  | none, some f => .ok f
  | none, none => o.findInputFormat

/-- The file of the plan. -/
def findPlan (o : Options) : Outcome String :=
  match o.plan with
  | some path => .ok path
  | none => .error (.usage "no plan given, use -p/--plan")

/-- The format of the plan: by name or by the extension of its file. -/
def findPlanFormat (o : Options) (path : String) : Outcome Format :=
  match o.planFormat with
  | some name => Format.find "plan" name
  | none =>
    match Format.ofPath? path with
    | some f => .ok f
    | none =>
      .error (.usage ("cannot detect plan format from '" ++ path
        ++ "', use --plan-format to specify"))

/-- The result is spread over several lines if that is asked for, and in a file or on a terminal
unless it is asked not to be. -/
def isPretty (o : Options) (isTerminal : Bool) : Bool :=
  o.pretty || (!o.compact && (o.output.isSome || isTerminal))

/-! ## Reading -/

/-- The plan of a command. -/
def loadPlan (o : Options) (sys : System m) : ExceptT Error m Plan := do
  let path ← o.findPlan
  let format ← o.findPlanFormat path
  let text ← sys.text path
  let sheet ← format.readSheet text
  ((Compiler.ofRegistry .standard).compileSheet sheet).1

/-- The text of the document. -/
def readDocument (o : Options) (sys : System m) : ExceptT Error m String :=
  match o.input with
  | some path => sys.text path
  | none => sys.stdinText

/-- The overrides of a command, in the format of the document unless their file has another
extension. -/
def loadOverrides (o : Options) (sys : System m) (format : Format) :
    ExceptT Error m (Option Value) := do
  match o.overrides with
  | none => return none
  | some path =>
    let text ← sys.text path
    let v ← ((Format.ofPath? path).getD format).read text
    return some v

/-! ## Writing -/

/-- The text of a result. -/
def render (o : Options) (sys : System m) (format : Format) (v : Value) :
    ExceptT Error m String := do
  let isTerminal ← sys.isTerminal
  format.write (o.isPretty isTerminal) v

/-- Prints a text, or writes it as a file if one is named. -/
def deliver (o : Options) (sys : System m) (text : String) : ExceptT Error m Unit :=
  match o.output with
  | none => sys.print text
  | some path => .mk do
    return (← sys.save path text).mapError fun f => .io (path ++ ": " ++ f.message)

/-! ## Commands -/

/-- The value at a path in the document. -/
def runExtract (o : Options) (sys : System m) (pathText : String) : ExceptT Error m Unit := do
  let path ← (Path.parse pathText).mapError PathFault.toError
  let text ← o.readDocument sys
  let inputFormat ← o.findInputFormat
  let document ← inputFormat.read text
  let outputFormat ← o.findOutputFormat
  let text ← o.render sys outputFormat (Crosswalk.extract path.segments document)
  o.deliver sys text

/-- What a checked plan has to show. -/
def checkText (p : Plan) : String :=
  "plan valid (" ++ Decimal.ofNatText p.links.length ++ " rules)\n"

/-- What the plan makes of the document. -/
def runPlan (o : Options) (sys : System m) (d : Direction) (p : Plan) :
    ExceptT Error m Unit := do
  let inputFormat ← o.findInputFormat
  let outputFormat ← o.findOutputFormat
  let text ← o.readDocument sys
  let document ← inputFormat.read text
  let overrides ← o.loadOverrides sys inputFormat
  let result ← p.run d overrides document
  let text ← o.render sys outputFormat result
  o.deliver sys text

/-- A command. A path to extract goes before a check, and a check before a run of the plan. -/
def run (o : Options) (sys : System m) : ExceptT Error m Unit := do
  let d ← o.findDirection
  match o.extract with
  | some pathText => o.runExtract sys pathText
  | none =>
    let p ← o.loadPlan sys
    if o.check then sys.print (checkText p) else o.runPlan sys d p

/-! ## Folders -/

/-- The name of the folder that a command runs in, below the root. -/
def folderName : String := "folder"

/-- The folder after a command that runs in it with some input, and the text that it has printed.
Standard output is not a terminal. -/
def runIn (o : Options) (folder : Folder) (input : ByteArray) : Outcome (Folder × String) :=
  let console : Console := ⟨[folderName], .ok input, false⟩
  let (done, after) := World.run ⟨[(folderName, .folder folder)], ""⟩ (o.run console.system)
  done.map fun () =>
    ((((Entry.folder after.root).get? [folderName]).map Entry.entries).getD [], after.printed)

end Options

end Crosswalk
