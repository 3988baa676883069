import Crosswalk.Members

/-!
# Folders

Files with their bytes and folders in each other, from the root of a system down.

* `walk`: the place that a path leads to, by the names on the way.
* `read`: the bytes of a file.
* `target`, `write`: the place of a file to be written, and everything with the file written.
* `FileFault.message`: the words of the system for what can go wrong.
-/

namespace Crosswalk

/-- Why a file cannot be read or written. -/
inductive FileFault where
  | missing
  | notFolder
  | isFolder
  /-- A fault of a real system, in its own words. -/
  | other (message : String)
deriving DecidableEq, Repr

/-- The words of the system for a fault. -/
def FileFault.message : FileFault → String
  | missing => "No such file or directory (os error 2)"
  | notFolder => "Not a directory (os error 20)"
  | isFolder => "Is a directory (os error 21)"
  | other message => message

/-- A file, or a folder with named entries. -/
inductive Entry where
  | file (bytes : ByteArray)
  | folder (entries : List (String × Entry))
deriving Inhabited

/-- A folder by its entries. -/
abbrev Folder := Members Entry

namespace Entry

/-- What names lead to, one in the other. -/
def get? : List String → Entry → Option Entry
  | [], e => some e
  | name :: names, folder es => (Members.get? es name).bind (get? names)
  | _ :: _, file _ => none

/-- What is in a folder; nothing is in a file. -/
def entries : Entry → Folder
  | folder es => es
  | file _ => []

/-- Named entries with one replaced, or added at the end. -/
def putEntry (name : String) (e : Entry) (es : Folder) : Folder := es.put name e

/-- An entry put where names lead, if there is a folder for it. -/
def put (new : Entry) : List String → Entry → Entry
  | [], _ => new
  | name :: names, folder es =>
    match names, Members.get? es name with
    | [], _ => folder (putEntry name new es)
    | _, some inner => folder (putEntry name (put new names inner) es)
    | _, none => folder es
  | _ :: _, file bytes => file bytes

end Entry

namespace Folder

/-- The parts of a path. -/
def parts (path : String) : List String := (path.toList.splitOn '/').map String.ofList

/-- The names that lead where a path leads, from a place that some names lead to, the last one
first. Everything on the way has to be a folder, and above the root there is only the root. -/
def walk (root : Folder) : (here : List String) → List String → Except FileFault (List String)
  | here, [] => .ok here.reverse
  | here, part :: rest =>
    match (Entry.folder root).get? here.reverse with
    | none => .error .missing
    | some (.file _) => .error .notFolder
    | some (.folder _) =>
      if part = "" ∨ part = "." then walk root here rest
      else if part = ".." then walk root here.tail rest
      else walk root (part :: here) rest

/-- Where a path begins for a command that runs in a folder: at the root if there is a slash in
front. -/
def start (here : List String) (path : String) : List String :=
  if path.toList.head? = some '/' then [] else here.reverse

/-- The bytes of the file that a path leads to. -/
def read (root : Folder) (here : List String) (path : String) : Except FileFault ByteArray :=
  match walk root (start here path) (parts path) with
  | .error f => .error f
  | .ok names =>
    match (Entry.folder root).get? names with
    | none => .error .missing
    | some (.folder _) => .error .isFolder
    | some (.file bytes) => .ok bytes

/-- The place of the file that a path leads to, which need not be there yet. The folder around it
has to be. -/
def target (root : Folder) (here : List String) (path : String) :
    Except FileFault (List String) :=
  let backwards := (parts path).reverse
  let above := (backwards.dropWhile (· = "")).tail.reverse
  let last := backwards.headD ""
  match walk root (start here path) (above ++ [""]) with
  | .error f => .error f
  | .ok names =>
    if last = "" ∨ last = "." ∨ last = ".." then .error .isFolder
    else
      match (Entry.folder root).get? (names ++ [last]) with
      | some (.folder _) => .error .isFolder
      | _ => .ok (names ++ [last])

/-- Everything with a file of these bytes where a path leads. -/
def write (root : Folder) (here : List String) (path : String) (bytes : ByteArray) :
    Except FileFault Folder :=
  (target root here path).map fun names => (Entry.put (.file bytes) names (.folder root)).entries

end Folder

end Crosswalk
