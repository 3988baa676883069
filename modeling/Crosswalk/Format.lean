import Crosswalk.Json.Records
import Crosswalk.Yaml.Printer
import Crosswalk.Yaml.Records
import Crosswalk.Toml.Printer
import Crosswalk.Toml.Records
import Crosswalk.Plan.Sheet
import Crosswalk.Json.Printer

/-!
# Formats

Documents and plan sheets are read and written in one of three formats.

* `ofName?`, `ofPath?`: the format of a name, and of a file by its extension.
* `read`, `write`: values in a format.
* `readSheet`: plan sheets in a format.
-/

namespace Crosswalk

/-- How a document is written down. -/
inductive Format where
  | json
  | yaml
  | toml
deriving DecidableEq, Repr

namespace Format

def text : Format → String
  | json => "json"
  | yaml => "yaml"
  | toml => "toml"

/-- The names of formats. -/
def names : List String := ["json", "yaml", "yml", "toml"]

/-- The format of a name, case aside. -/
def ofName? (name : String) : Option Format :=
  let name := Text.lower name
  if name = "json" then some json
  else if name = "yaml" ∨ name = "yml" then some yaml
  else if name = "toml" then some toml
  else none

/-! ## File names -/

/-- The parts of a path between slashes. Empty parts and single dots say nothing, except for a dot
at the beginning of a path. -/
def pathParts (path : List Char) : List (List Char) :=
  let parts := path.splitOn '/'
  (parts.zipIdx.filter fun (part, i) => part ≠ [] ∧ (part ≠ ['.'] ∨ i = 0)).map Prod.fst

/-- What follows the last dot of a file name, if there is something before that dot. -/
def extensionOf? (name : List Char) : Option (List Char) :=
  if name = ['.', '.'] then none
  else
    match name.reverse.dropWhile (· ≠ '.') with
    | [] => none
    | [_] => none
    | _ => some (name.reverse.takeWhile (· ≠ '.')).reverse

/-- The extension of the file that a path leads to. -/
def fileExtension? (path : String) : Option String :=
  ((pathParts path.toList).getLast?.bind extensionOf?).map String.ofList

/-- The format of a file. -/
def ofPath? (path : String) : Option Format := (fileExtension? path).bind ofName?

/-! ## Texts -/

/-- The value of a text. -/
def read : Format → String → Outcome Value
  | json, s => (Json.parse s).map Json.toValue
  | yaml, s => Yaml.parse s
  | toml, s => Toml.parse s

/-- The sheet of a text. -/
def readSheet : Format → String → Outcome Sheet
  | json, s => Json.decode (Sheet.decode Json.reader) s
  | yaml, s => Yaml.decode (Sheet.decode Yaml.reader) s
  | toml, s => Toml.decode (Sheet.decode Toml.reader) s

/-- The text of a value. Only JSON can be spread over several lines or not. -/
def write (pretty : Bool) : Format → Value → Outcome String
  | json, v =>
    let j := Json.ofValue v
    .ok ((if pretty then j.pretty else j.compact) ++ "\n")
  | yaml, v => .ok (Yaml.print (Json.ofValue v))
  | toml, v => (Toml.document? v).map Toml.print

end Format

end Crosswalk
