import ResourceQuery.Ty

/-! # Functions of the filter grammar

The allow-list says which members of which host types have a function in the grammar, which
arguments they take, and where the receiver stands among the printed arguments.
-/
namespace ResourceQuery

inductive Function
  | substringOf | startsWith | endsWith | indexOf | substring | replace | toLower | toUpper | trim
  | concat | length | count | year | month | day | hour | minute | second | round | floor | ceiling
  deriving DecidableEq

def Function.name : Function → String
  | .substringOf => "substringof"
  | .startsWith => "startswith"
  | .endsWith => "endswith"
  | .indexOf => "indexof"
  | .substring => "substring"
  | .replace => "replace"
  | .toLower => "tolower"
  | .toUpper => "toupper"
  | .trim => "trim"
  | .concat => "concat"
  | .length => "length"
  | .count => "count"
  | .year => "year"
  | .month => "month"
  | .day => "day"
  | .hour => "hour"
  | .minute => "minute"
  | .second => "second"
  | .round => "round"
  | .floor => "floor"
  | .ceiling => "ceiling"

inductive Receiver
  | string | dateTime | sequence | math
  deriving DecidableEq

def Receiver.of? (ty : Ty) : Option Receiver :=
  match ty.underlying with
  | .string => some .string
  | .dateTime | .dateTimeOffset => some .dateTime
  | .list _ | .queryable _ => some .sequence
  | .named "Math" => some .math
  | _ => none

inductive Access
  | property | method | staticMethod
  deriving DecidableEq

inductive ArgKind
  | text | integer | numeric
  deriving DecidableEq

def ArgKind.accepts : ArgKind → Ty → Bool
  | .text, ty => ty.isText
  | .integer, ty => ty.isInteger
  | .numeric, ty => ty.isNumeric

def ArgKind.name : ArgKind → String
  | .text => "text"
  | .integer => "integer"
  | .numeric => "numeric"

inductive ReceiverPosition
  | first | last
  /-- There is no receiver. -/
  | absent
  deriving DecidableEq

/-- One member of the allow-list, in one overload. -/
structure Signature where
  receiver : Receiver
  member : String
  access : Access
  params : List ArgKind
  function : Function
  position : ReceiverPosition
  deriving DecidableEq

/-- The printed arguments, if there is a receiver exactly where the signature has a place for one. -/
def Signature.arrange? {α : Type} (s : Signature) (receiver : Option α) (args : List α) :
    Option (List α) :=
  match s.position, receiver with
  | .first, some r => some (r :: args)
  | .last, some r => some (args ++ [r])
  | .absent, none => some args
  | _, _ => none

def Signature.accepts (s : Signature) (args : List Ty) : Bool :=
  s.params.length == args.length && (s.params.zip args).all fun (kind, ty) => kind.accepts ty

def allowList : List Signature := [
  ⟨.string, "Contains", .method, [.text], .substringOf, .last⟩,
  ⟨.string, "StartsWith", .method, [.text], .startsWith, .first⟩,
  ⟨.string, "EndsWith", .method, [.text], .endsWith, .first⟩,
  ⟨.string, "IndexOf", .method, [.text], .indexOf, .first⟩,
  ⟨.string, "IndexOf", .method, [.text, .integer], .indexOf, .first⟩,
  ⟨.string, "Substring", .method, [.integer], .substring, .first⟩,
  ⟨.string, "Substring", .method, [.integer, .integer], .substring, .first⟩,
  ⟨.string, "Replace", .method, [.text, .text], .replace, .first⟩,
  ⟨.string, "ToLower", .method, [], .toLower, .first⟩,
  ⟨.string, "ToUpper", .method, [], .toUpper, .first⟩,
  ⟨.string, "Trim", .method, [], .trim, .first⟩,
  ⟨.string, "Concat", .staticMethod, [.text, .text], .concat, .absent⟩,
  ⟨.string, "Length", .property, [], .length, .first⟩,
  ⟨.sequence, "Count", .property, [], .count, .first⟩,
  ⟨.sequence, "Count", .method, [], .count, .first⟩,
  ⟨.dateTime, "Year", .property, [], .year, .first⟩,
  ⟨.dateTime, "Month", .property, [], .month, .first⟩,
  ⟨.dateTime, "Day", .property, [], .day, .first⟩,
  ⟨.dateTime, "Hour", .property, [], .hour, .first⟩,
  ⟨.dateTime, "Minute", .property, [], .minute, .first⟩,
  ⟨.dateTime, "Second", .property, [], .second, .first⟩,
  ⟨.math, "Round", .staticMethod, [.numeric], .round, .absent⟩,
  ⟨.math, "Floor", .staticMethod, [.numeric], .floor, .absent⟩,
  ⟨.math, "Ceiling", .staticMethod, [.numeric], .ceiling, .absent⟩]

inductive LookupResult
  | found (signature : Signature)
  /-- The member is known, but not with such arguments. -/
  | mismatch (function : Function) (detail : String)
  | unknown
  deriving DecidableEq

def overloads (receiver : Receiver) (member : String) (access : Access) : List Signature :=
  allowList.filter fun s => s.receiver = receiver && s.member = member && s.access = access

def mismatchDetail (candidates : List Signature) (args : List Ty) : String :=
  let expected := candidates.map fun s => "(" ++ ", ".intercalate (s.params.map ArgKind.name) ++ ")"
  "expected one of " ++ " or ".intercalate expected ++ " but got (" ++
    ", ".intercalate (args.map Ty.name) ++ ")"

def lookup (receiver : Receiver) (member : String) (access : Access) (args : List Ty) :
    LookupResult :=
  match overloads receiver member access with
  | [] => .unknown
  | first :: rest =>
    match (first :: rest).find? (·.accepts args) with
    | some s => .found s
    | none => .mismatch first.function (mismatchDetail (first :: rest) args)

end ResourceQuery
