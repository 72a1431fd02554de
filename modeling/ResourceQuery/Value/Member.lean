import ResourceQuery.Text.Blank
import ResourceQuery.Text.Case
import ResourceQuery.Text.Search
import ResourceQuery.Value.Arithmetic

/-! # Members, entries and methods of values -/
namespace ResourceQuery.Value

def counted (n : Nat) : Evaluated := stored "Count" .int32 n

def datePart? (t : DateTime) : String → Option Int
  | "Year" => some t.clock.year
  | "Month" => some t.clock.month
  | "Day" => some t.clock.day
  | "Hour" => some t.clock.hour
  | "Minute" => some t.clock.minute
  | "Second" => some t.clock.second
  | _ => none

def isNullableTy : Ty → Bool
  | .nullable _ => true
  | _ => false

/-- Reads a member. On a nullable type, `HasValue` tells null apart and `Value` unwraps. -/
def member (declaring : Ty) (name : String) (v : Value) : Evaluated :=
  if isNullableTy declaring && name == "HasValue" then .ok (.boolean (!v.isNull))
  else if v.isNull then .error (.nullReference name)
  else if isNullableTy declaring && name == "Value" then .ok v
  else
    let missing : Evaluated := .error (.missingMember v.ty name)
    match v with
    | .object _ fields => match fields.lookup name with
      | some w => .ok w
      | none => missing
    | .string s => if name == "Length" then counted s.toList.length else missing
    | .list items => if name == "Count" then counted items.length else missing
    | .dictionary entries => if name == "Count" then counted entries.length else missing
    | .dateTime t => match datePart? t name with
      | some n => .ok (.int32 (Int32.ofInt n))
      | none => missing
    | _ => missing

def entry (v key : Value) : Evaluated :=
  match v, key with
  | .null, _ => .error (.nullReference "[]")
  | .dictionary entries, .string k =>
    match entries.lookup k with
    | some w => .ok w
    | none => .error (.keyNotFound k)
  | .list items, _ =>
    match key.integer? with
    | none => .error (mismatch "[]" [v, key])
    | some i =>
      match if i < 0 then none else items[i.toNat]? with
      | some w => .ok w
      | none => .error (.indexOutOfRange i items.length)
  | _, _ => .error (mismatch "[]" [v, key])

/-- A position in a text of `length` characters, of which `limit` may be passed. What is no
integer counts as -1. -/
def charIndex (length limit : Nat) (index : Value) : Except EvalError Nat :=
  let i := index.integer?.getD (-1)
  if 0 ≤ i ∧ i ≤ limit then .ok i.toNat else .error (.indexOutOfRange i length)

def indexOf (s needle : String) (start : Nat) : Evaluated :=
  let found : Int := match Text.indexFrom? needle.toList start s.toList with
    | some i => i
    | none => -1
  stored "IndexOf" .int32 found

/-- The methods of texts. `none` is a method, or a list of arguments, that texts do not have. -/
def stringMethod (s method : String) (args : List Value) : Option Evaluated :=
  let chars := s.toList
  match method, args with
  | "ToLower", [] => some (.ok (.string (Text.lower s)))
  | "ToUpper", [] => some (.ok (.string (Text.upper s)))
  | "Trim", [] => some (.ok (.string (Text.trim s)))
  | "Contains", [t] => t.text?.map fun t => .ok (.boolean (Text.contains t.toList chars))
  | "StartsWith", [t] => t.text?.map fun t => .ok (.boolean (t.toList.isPrefixOf chars))
  | "EndsWith", [t] => t.text?.map fun t => .ok (.boolean (t.toList.isSuffixOf chars))
  | "Replace", [t, u] => do
    let t ← t.text?
    let u ← u.text?
    return .ok (.string (String.ofList (Text.replace t.toList u.toList chars)))
  | "IndexOf", [t] => t.text?.map fun t => indexOf s t 0
  | "IndexOf", [t, start] => t.text?.map fun t => do
    let start ← charIndex chars.length chars.length start
    indexOf s t start
  | "Substring", [start] => some do
    let start ← charIndex chars.length chars.length start
    return .string (String.ofList (chars.drop start))
  | "Substring", [start, count] => some do
    let start ← charIndex chars.length chars.length start
    let count ← charIndex chars.length (chars.length - start) count
    return .string (String.ofList ((chars.drop start).take count))
  | _, _ => none

def roundingRule? : String → Option Number.Whole
  | "Round" => some .nearestEven
  | "Floor" => some .floor
  | "Ceiling" => some .ceiling
  | _ => none

def rounded (method : String) (rule : Number.Whole) : Value → Evaluated
  | .double x => .ok (.double (rule.apply x))
  | .single x => .ok (.single (Number.narrow (rule.apply (Number.widen x))))
  | .decimal d => .ok (.decimal (d.whole rule))
  | v => .error (mismatch method [v])

def staticMethod (declaring : Ty) (method : String) (args : List Value) : Option Evaluated :=
  match declaring.underlying, method, args with
  | .string, "Concat", args => (args.mapM concatenand?).map fun parts => .ok (.string (String.join parts))
  | .named "Math", method, [v] => (roundingRule? method).map fun rule => rounded method rule v
  | _, _, _ => none

end ResourceQuery.Value
