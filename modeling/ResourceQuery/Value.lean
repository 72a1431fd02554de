import ResourceQuery.Calendar
import ResourceQuery.Decimal
import ResourceQuery.Entries
import ResourceQuery.Guid
import ResourceQuery.Ty

/-! # Constant values -/
namespace ResourceQuery

/-- A constant of a host expression. Objects, lists and dictionaries are captured from the
host's surroundings. -/
inductive Value
  | null
  | boolean (b : Bool)
  | byte (n : UInt8)
  | int16 (n : Int16)
  | int32 (n : Int32)
  | int64 (n : Int64)
  | single (x : Float32)
  | double (x : Float)
  | decimal (d : Decimal)
  | char (c : Char)
  | string (s : String)
  | dateTime (t : DateTime)
  | guid (g : Guid)
  | object (typeName : String) (fields : List (String × Value))
  | list (items : List Value)
  | dictionary (entries : List (String × Value))

namespace Value

def ty : Value → Ty
  | .null => .object
  | .boolean _ => .boolean
  | .byte _ => .byte
  | .int16 _ => .int16
  | .int32 _ => .int32
  | .int64 _ => .int64
  | .single _ => .single
  | .double _ => .double
  | .decimal _ => .decimal
  | .char _ => .char
  | .string _ => .string
  | .dateTime t => match t.zone with
    | .offset _ => .dateTimeOffset
    | _ => .dateTime
  | .guid _ => .guid
  | .object typeName _ => .named typeName
  | .list _ => .list .object
  | .dictionary _ => .dictionary .string .object

def isNull : Value → Bool
  | .null => true
  | _ => false

theorem isNull_iff (v : Value) : v.isNull = true ↔ v = .null := by cases v <;> simp [isNull]

def integer? : Value → Option Int
  | .byte n => some n.toNat
  | .int16 n => some n.toInt
  | .int32 n => some n.toInt
  | .int64 n => some n.toInt
  | _ => none

def string? : Value → Option String
  | .string s => some s
  | _ => none

def text? : Value → Option String
  | .string s => some s
  | .char c => some (String.singleton c)
  | _ => none

/-- The text of an operand of a concatenation, where null counts as empty. -/
def concatenand? : Value → Option String
  | .null => some ""
  | v => v.text?

mutual
/-- Equality of values of one kind: floating-point numbers compare as numbers, decimals whatever
their scales, and the fields of an object in any order. -/
def same : Value → Value → Bool
  | .null, .null => true
  | .boolean a, .boolean b => a == b
  | .byte a, .byte b => a == b
  | .int16 a, .int16 b => a == b
  | .int32 a, .int32 b => a == b
  | .int64 a, .int64 b => a == b
  | .single a, .single b => a == b
  | .double a, .double b => a == b
  | .decimal a, .decimal b => a.order b == .eq
  | .char a, .char b => a == b
  | .string a, .string b => a == b
  | .dateTime a, .dateTime b => a.same b
  | .guid a, .guid b => a == b
  | .object n fields, .object m others => n == m && sameEntries [] fields others
      && (Entries.keys others).all (Entries.keys fields).contains
  | .list items, .list others => sameItems items others
  | .dictionary entries, .dictionary others => sameEntries [] entries others
      && (Entries.keys others).all (Entries.keys entries).contains
  | _, _ => false
def sameItems : List Value → List Value → Bool
  | [], [] => true
  | v :: rest, w :: others => same v w && sameItems rest others
  | _, _ => false
/-- Whether each entry, the first of its key, has an equal one among the others. -/
def sameEntries (seen : List String) : List (String × Value) → List (String × Value) → Bool
  | [], _ => true
  | (key, v) :: rest, others =>
    (seen.contains key || match others.lookup key with
      | some w => same v w
      | none => false) && sameEntries (key :: seen) rest others
end

end Value
end ResourceQuery
