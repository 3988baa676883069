/-!
# Options of the command

* `Options`: what a command line asks for.
* `Request.ofArguments`: the request that a list of arguments makes, or what is wrong with it.
  Settings take a value, behind an equals sign or in the next argument, or directly behind their
  letter.
-/

namespace Crosswalk

/-- What a command line asks for. -/
structure Options where
  /-- The file of the plan. -/
  plan : Option String
  planFormat : Option String
  /-- The file of the document; without one it comes from standard input. -/
  input : Option String
  /-- The file of the result; without one it goes to standard output. -/
  output : Option String
  direction : String
  /-- The file of a document that is merged over the result. -/
  overrides : Option String
  inputFormat : Option String
  outputFormat : Option String
  pretty : Bool
  compact : Bool
  /-- The plan is compiled and not run. -/
  check : Bool
  /-- A path, the value at which is the result instead of what a plan makes. -/
  extract : Option String
deriving DecidableEq, Repr

/-- An option with a value. -/
inductive Setting where
  | plan
  | planFormat
  | input
  | output
  | direction
  | overrides
  | inputFormat
  | outputFormat
  | extract
deriving DecidableEq, Repr

/-- An option without a value. -/
inductive Switch where
  | pretty
  | compact
  | check
deriving DecidableEq, Repr

/-- What the name of an option stands for. -/
inductive Meaning where
  | setting (s : Setting)
  | switch (s : Switch)
  | help
  | version
deriving DecidableEq, Repr

/-- Why a command line asks for nothing. -/
inductive Misuse where
  | unknown (argument : String)
  | noValue (s : Setting)
  | emptyValue (s : Setting)
  | valueForSwitch (argument : String)
  | repeatedSetting (s : Setting)
  | repeatedSwitch (s : Switch)
  | prettyAndCompact
  | noPlan
deriving DecidableEq, Repr

/-- What a command line asks for. -/
inductive Request where
  | run (o : Options)
  | help
  | version
deriving DecidableEq, Repr

/-- The options by their letters. -/
def Meaning.ofLetter? (c : Char) : Option Meaning :=
  match c with
  | 'p' => some (setting .plan)
  | 'i' => some (setting .input)
  | 'o' => some (setting .output)
  | 'd' => some (setting .direction)
  | 'f' => some (setting .inputFormat)
  | 't' => some (setting .outputFormat)
  | 'x' => some (setting .extract)
  | 'h' => some help
  | 'V' => some version
  | _ => none

/-- The options by their words. -/
def Meaning.ofWord? (word : String) : Option Meaning :=
  match word with
  | "plan" => some (setting .plan)
  | "plan-format" => some (setting .planFormat)
  | "input" => some (setting .input)
  | "output" => some (setting .output)
  | "direction" => some (setting .direction)
  | "overrides" => some (setting .overrides)
  | "from" => some (setting .inputFormat)
  | "to" => some (setting .outputFormat)
  | "extract" => some (setting .extract)
  | "pretty" => some (switch .pretty)
  | "compact" => some (switch .compact)
  | "check" => some (switch .check)
  | "help" => some help
  | "version" => some version
  | _ => none

/-- The value of a setting is the name of a file, which is not empty. -/
def Setting.isFile : Setting → Bool
  | plan | input | output | overrides => true
  | _ => false

def Setting.word : Setting → String
  | plan => "--plan"
  | planFormat => "--plan-format"
  | input => "--input"
  | output => "--output"
  | direction => "--direction"
  | overrides => "--overrides"
  | inputFormat => "--from"
  | outputFormat => "--to"
  | extract => "--extract"

def Switch.word : Switch → String
  | pretty => "--pretty"
  | compact => "--compact"
  | check => "--check"

def Misuse.message : Misuse → String
  | unknown argument => "unexpected argument '" ++ argument ++ "'"
  | noValue s => "a value is required for '" ++ s.word ++ "'"
  | emptyValue s => "a value is required for '" ++ s.word ++ "'"
  | valueForSwitch argument => "no value is expected in '" ++ argument ++ "'"
  | repeatedSetting s => "'" ++ s.word ++ "' cannot be used several times"
  | repeatedSwitch s => "'" ++ s.word ++ "' cannot be used several times"
  | prettyAndCompact => "'--pretty' cannot be used with '--compact'"
  | noPlan => "'--plan' is required"

/-! ## Texts -/

/-- The name and the version of the command. -/
def versionText : String := "fieldmap 0.1.0\n"

def helpText : String :=
  "Map JSON-like documents between two shapes using a bidirectional plan\n\n"
    ++ "Usage: fieldmap [OPTIONS]\n\nOptions:\n"
    ++ "  -p, --plan <PLAN>                Plan file (JSON, YAML or TOML)\n"
    ++ "      --plan-format <PLAN_FORMAT>  Plan file format\n"
    ++ "  -i, --input <INPUT>              Input file\n"
    ++ "  -o, --output <OUTPUT>            Output file\n"
    ++ "  -d, --direction <DIRECTION>      Direction to apply the plan [default: right]\n"
    ++ "      --overrides <OVERRIDES>      Document merged over the result\n"
    ++ "  -f, --from <FROM>                Input format\n"
    ++ "  -t, --to <TO>                    Output format\n"
    ++ "      --pretty                     Pretty-print output\n"
    ++ "      --compact                    Compact output\n"
    ++ "      --check                      Compile the plan and exit\n"
    ++ "  -x, --extract <PATH>             Print the value at PATH instead of mapping\n"
    ++ "  -h, --help                       Print help\n"
    ++ "  -V, --version                    Print version\n"

/-! ## Arguments -/

/-- The options given so far. -/
structure Given where
  settings : List (Setting × String)
  switches : List Switch

namespace Given

def value? (g : Given) (s : Setting) : Option String := g.settings.lookup s

def addSetting (g : Given) (s : Setting) (value : String) : Except Misuse Given :=
  if (g.value? s).isSome then .error (.repeatedSetting s)
  else if s.isFile ∧ value = "" then .error (.emptyValue s)
  else .ok { g with settings := (s, value) :: g.settings }

def addSwitch (g : Given) (s : Switch) : Except Misuse Given :=
  if g.switches.contains s then .error (.repeatedSwitch s)
  else .ok { g with switches := s :: g.switches }

/-- Plans run to the right unless a direction is given. -/
def defaultDirection : String := "right"

/-- The request of all options. A plan is needed unless a path is extracted. -/
def request (g : Given) : Except Misuse Request :=
  if g.switches.contains .pretty ∧ g.switches.contains .compact then .error .prettyAndCompact
  else if (g.value? .plan).isNone ∧ (g.value? .extract).isNone then .error .noPlan
  else .ok (.run {
    plan := g.value? .plan
    planFormat := g.value? .planFormat
    input := g.value? .input
    output := g.value? .output
    direction := (g.value? .direction).getD defaultDirection
    overrides := g.value? .overrides
    inputFormat := g.value? .inputFormat
    outputFormat := g.value? .outputFormat
    pretty := g.switches.contains .pretty
    compact := g.switches.contains .compact
    check := g.switches.contains .check
    extract := g.value? .extract })

end Given

/-- How it goes on behind an argument: with the options so far and a setting whose value comes next,
or with a request that nothing can change. -/
inductive Reading where
  | more (g : Given) (awaiting : Option Setting)
  | final (r : Request)

/-- The letters behind a hyphen. Everything behind the letter of a setting is its value, without an
equals sign in between. -/
def readLetters (argument : String) (g : Given) : List Char → Except Misuse Reading
  | [] => .ok (.more g none)
  | c :: cs =>
    match Meaning.ofLetter? c with
    | none => .error (.unknown argument)
    | some .help => .ok (.final .help)
    | some .version => .ok (.final .version)
    | some (.switch s) =>
      match g.addSwitch s with
      | .error e => .error e
      | .ok g => readLetters argument g cs
    | some (.setting s) =>
      match cs with
      | [] => .ok (.more g (some s))
      | '=' :: value => (g.addSetting s (String.ofList value)).map fun g => .more g none
      | value => (g.addSetting s (String.ofList value)).map fun g => .more g none

/-- The word behind two hyphens, with its value if there is an equals sign. -/
def readWord (argument : String) (g : Given) (cs : List Char) : Except Misuse Reading :=
  let word := String.ofList (cs.takeWhile (· ≠ '='))
  let value? : Option String := match cs.dropWhile (· ≠ '=') with
    | [] => none
    | _ :: value => some (String.ofList value)
  match Meaning.ofWord? word, value? with
  | none, _ => .error (.unknown argument)
  | some (.setting s), none => .ok (.more g (some s))
  | some (.setting s), some value => (g.addSetting s value).map fun g => .more g none
  | some _, some _ => .error (.valueForSwitch argument)
  | some .help, none => .ok (.final .help)
  | some .version, none => .ok (.final .version)
  | some (.switch s), none => (g.addSwitch s).map fun g => .more g none

/-- An argument that is not the value of a setting. There are none without a hyphen. -/
def readOption (g : Given) (argument : String) : Except Misuse Reading :=
  match argument.toList with
  | '-' :: '-' :: cs => readWord argument g cs
  | '-' :: c :: cs => readLetters argument g (c :: cs)
  | _ => .error (.unknown argument)

/-- An argument that can only be an option: it begins with a hyphen that is not all of it. -/
def isOption (argument : String) : Bool := argument.startsWith "-" && argument ≠ "-"

/-- The request of the arguments from the next one on. -/
def readArguments : Given → (awaiting : Option Setting) → List String → Except Misuse Request
  | g, none, [] => g.request
  | _, some s, [] => .error (.noValue s)
  | g, some s, argument :: rest =>
    if isOption argument then .error (.noValue s)
    else
      match g.addSetting s argument with
      | .error e => .error e
      | .ok g => readArguments g none rest
  | g, none, argument :: rest =>
    if argument = "--" then
      match rest with
      | [] => g.request
      | other :: _ => .error (.unknown other)
    else
      match readOption g argument with
      | .error e => .error e
      | .ok (.final r) => .ok r
      | .ok (.more g awaiting) => readArguments g awaiting rest

/-- The request of the arguments of a command. -/
def Request.ofArguments (arguments : List String) : Except Misuse Request :=
  readArguments ⟨[], []⟩ none arguments

end Crosswalk
