import UnitPlane.Json.Raw

/-!
# `UnitPlane.Json.Record`: records from JSON documents

A record is an object with a member for each field, in any order, or an array of the fields in
theirs. Members of other names are ignored. A field that is there twice is refused.
-/

set_option autoImplicit false

namespace UnitPlane.Json

/-- The members of an object with their names read. -/
def namedMembers? (members : List (List StringPart × Raw)) : Option (List (String × Raw)) :=
  members.mapM fun (parts, value) => (decodeParts parts).map fun name => (String.ofList name, value)

/-- The one member of a given name, if there is one. More than one is refused. -/
def member? (members : List (String × Raw)) (name : String) : Option (Option Raw) :=
  match members.filter fun m => m.1 = name with
  | [] => some none
  | [(_, value)] => some (some value)
  | _ => none

/-- The fields of a record, in the order of their names, as far as they are there. -/
def Raw.fields? (names : List String) : Raw → Option (List (Option Raw))
  | .array items =>
    if items.length ≤ names.length then
      some (items.map some ++ List.replicate (names.length - items.length) none)
    else none
  | .object members => do
    let members ← namedMembers? members
    names.mapM (member? members)
  | _ => none

/-- The value of a field, or a default if the field is not there. -/
def fieldOr {α : Type} (default : α) (read : Raw → Option α) : Option Raw → Option α
  | none => some default
  | some value => read value

end UnitPlane.Json
