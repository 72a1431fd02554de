/-! # Types of host expressions -/
namespace ResourceQuery

inductive Scalar
  | boolean | byte | int16 | int32 | int64 | single | double | decimal
  | char | string | dateTime | dateTimeOffset | guid | object
  deriving DecidableEq

def Scalar.name : Scalar → String
  | .boolean => "Boolean"
  | .byte => "Byte"
  | .int16 => "Int16"
  | .int32 => "Int32"
  | .int64 => "Int64"
  | .single => "Single"
  | .double => "Double"
  | .decimal => "Decimal"
  | .char => "Char"
  | .string => "String"
  | .dateTime => "DateTime"
  | .dateTimeOffset => "DateTimeOffset"
  | .guid => "Guid"
  | .object => "Object"

def Scalar.all : List Scalar :=
  [.boolean, .byte, .int16, .int32, .int64, .single, .double, .decimal, .char, .string,
    .dateTime, .dateTimeOffset, .guid, .object]

/-- The type of a node of a host expression. A `record` is generated by the host's compiler and
a `named` type is declared: a resource, a complex type or a holder of static members. -/
inductive Ty
  | scalar (kind : Scalar)
  | nullable (inner : Ty)
  | list (element : Ty)
  | dictionary (key value : Ty)
  | queryable (element : Ty)
  | tuple (items : List Ty)
  | record (name : String)
  | named (name : String)

namespace Ty

@[match_pattern] abbrev boolean : Ty := .scalar .boolean
@[match_pattern] abbrev byte : Ty := .scalar .byte
@[match_pattern] abbrev int16 : Ty := .scalar .int16
@[match_pattern] abbrev int32 : Ty := .scalar .int32
@[match_pattern] abbrev int64 : Ty := .scalar .int64
@[match_pattern] abbrev single : Ty := .scalar .single
@[match_pattern] abbrev double : Ty := .scalar .double
@[match_pattern] abbrev decimal : Ty := .scalar .decimal
@[match_pattern] abbrev char : Ty := .scalar .char
@[match_pattern] abbrev string : Ty := .scalar .string
@[match_pattern] abbrev dateTime : Ty := .scalar .dateTime
@[match_pattern] abbrev dateTimeOffset : Ty := .scalar .dateTimeOffset
@[match_pattern] abbrev guid : Ty := .scalar .guid
@[match_pattern] abbrev object : Ty := .scalar .object

mutual
def beq : Ty → Ty → Bool
  | .scalar a, .scalar b => decide (a = b)
  | .nullable a, .nullable b => beq a b
  | .list a, .list b => beq a b
  | .dictionary k v, .dictionary l w => beq k l && beq v w
  | .queryable a, .queryable b => beq a b
  | .tuple as, .tuple bs => beqAll as bs
  | .record a, .record b => decide (a = b)
  | .named a, .named b => decide (a = b)
  | _, _ => false
def beqAll : List Ty → List Ty → Bool
  | [], [] => true
  | a :: as, b :: bs => beq a b && beqAll as bs
  | _, _ => false
end

mutual
theorem beq_iff : (a b : Ty) → (beq a b = true ↔ a = b)
  | .scalar a, b => by cases b <;> simp [beq]
  | .nullable a, b => by cases b <;> simp [beq, beq_iff a]
  | .list a, b => by cases b <;> simp [beq, beq_iff a]
  | .dictionary k v, b => by cases b <;> simp [beq, beq_iff k, beq_iff v]
  | .queryable a, b => by cases b <;> simp [beq, beq_iff a]
  | .tuple as, b => by cases b <;> simp [beq, beqAll_iff as]
  | .record a, b => by cases b <;> simp [beq]
  | .named a, b => by cases b <;> simp [beq]
theorem beqAll_iff : (as bs : List Ty) → (beqAll as bs = true ↔ as = bs)
  | [], bs => by cases bs <;> simp [beqAll]
  | a :: as, bs => by cases bs <;> simp [beqAll, beq_iff a, beqAll_iff as]
end

instance : DecidableEq Ty := fun a b => decidable_of_iff _ (beq_iff a b)

def underlying : Ty → Ty
  | .nullable inner => inner.underlying
  | t => t

theorem underlying_underlying : (t : Ty) → t.underlying.underlying = t.underlying
  | .nullable inner => underlying_underlying inner
  | .scalar _ | .list _ | .dictionary .. | .queryable _ | .tuple _ | .record _ | .named _ => rfl

/-- Whether null is a value of the type. The wrappers count here. -/
def isNullable : Ty → Bool
  | .scalar .string | .scalar .object => true
  | .scalar _ => false
  | _ => true

def isBoolean (t : Ty) : Bool := t.underlying = .boolean

def isInteger (t : Ty) : Bool :=
  match t.underlying with
  | .byte | .int16 | .int32 | .int64 => true
  | _ => false

def isNumeric (t : Ty) : Bool :=
  t.isInteger || match t.underlying with
    | .single | .double | .decimal => true
    | _ => false

def isText (t : Ty) : Bool :=
  match t.underlying with
  | .string | .char => true
  | _ => false

def isDateTime (t : Ty) : Bool :=
  match t.underlying with
  | .dateTime | .dateTimeOffset => true
  | _ => false

def element? (t : Ty) : Option Ty :=
  match t.underlying with
  | .list e | .queryable e => some e
  | _ => none

def isSequence (t : Ty) : Bool := t.element?.isSome

def isRecordLike : Ty → Bool
  | .record _ | .tuple _ => true
  | _ => false

mutual
def name : Ty → String
  | .scalar kind => kind.name
  | .nullable inner => inner.name ++ "?"
  | .list e => "List<" ++ e.name ++ ">"
  | .dictionary k v => "Dictionary<" ++ k.name ++ ", " ++ v.name ++ ">"
  | .queryable e => "Queryable<" ++ e.name ++ ">"
  | .tuple items => "Tuple<" ++ ", ".intercalate (names items) ++ ">"
  | .record name | .named name => name
def names : List Ty → List String
  | [] => []
  | t :: rest => t.name :: names rest
end

end Ty
end ResourceQuery
