import ResourceQuery.Json

/-! # Records in JSON texts

A record is written as an object, in which unknown members are ignored and known ones may not
come twice, or as a list of its fields in order.
-/
namespace ResourceQuery.Json

structure Record where
  fields : List (String × Json)
  /-- Whether it is written as a list. -/
  positional : Bool

/-- The known fields of a record, given by their names in order. -/
def record? (names : List String) (j : Json) : Option Record :=
  match j with
  | .object _ => do
    let members ← j.members
    let once (name : String) : Bool := (members.filter fun m => m.1 = name).length ≤ 1
    if names.all once then some ⟨members, false⟩ else none
  | .array items => if items.length ≤ names.length then some ⟨names.zip items, true⟩ else none
  | _ => none

namespace Record
variable {α : Type}

def required (r : Record) (name : String) (read : Json → Option α) : Option α :=
  (r.fields.lookup name).bind read

def withDefault (r : Record) (name : String) (default : α) (read : Json → Option α) : Option α :=
  match r.fields.lookup name with
  | some v => read v
  | none => some default

/-- A field that may be null. In an object it may also be left out. -/
def nullable (r : Record) (name : String) (read : Json → Option α) : Option (Option α) :=
  match r.fields.lookup name with
  | some .null => some none
  | some v => (read v).map some
  | none => if r.positional then none else some none

end Record

/-- One of several names: a string, or an object with that name alone and null. -/
def oneOf? {α : Type} (choices : List (String × α)) (j : Json) : Option α :=
  match j with
  | .string (some name) => choices.lookup name
  | .object [(some name, .null)] => choices.lookup name
  | _ => none

end ResourceQuery.Json
