import Crosswalk.Value.Basic

/-!
# Merging

* `merge`: a patch laid over a value. Maps are merged member by member, at every depth; anything
  else in the patch replaces what it meets, and `undefined` leaves it.
-/

namespace Crosswalk.Value

/-- One member of a patch laid over the members of a map, given how the patch member is merged with
a map. -/
def patchMember (mergeInto : Value → Value) (name : String) (patch : Value)
    (ms : Members Value) : Members Value :=
  match patch, ms.get? name with
  | undefined, _ => ms
  | map _, some (map old) => ms.put name (mergeInto (map old))
  | _, _ => ms.put name patch

mutual

/-- A patch laid over a value. -/
def merge (v : Value) : (patch : Value) → Value
  | undefined => v
  | map patches =>
    match v with
    | map ms => map (mergeMembers ms patches)
    | _ => map patches
  | patch => patch

/-- The members of a patch laid over those of a map, one after the other. -/
def mergeMembers (ms : Members Value) : (patches : List (String × Value)) → Members Value
  | [] => ms
  | (name, patch) :: patches =>
    mergeMembers (patchMember (fun old => merge old patch) name patch ms) patches

end

end Crosswalk.Value
