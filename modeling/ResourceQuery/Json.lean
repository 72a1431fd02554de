/-! # Strict JSON texts

The reader keeps what the records read from a text can tell apart: the members of an object in
order and with repetitions, and of a number only whether it is written as an integer.
-/
namespace ResourceQuery

inductive Json
  | null
  | boolean (b : Bool)
  /-- `none` for a fraction, an exponent or a negative zero. -/
  | number (integer : Option Int)
  /-- `none` if an escape is half of a surrogate pair, which is no character. -/
  | string (s : Option String)
  | array (items : List Json)
  | object (members : List (Option String × Json))

namespace Json

def isJsonBlank (c : Char) : Bool := c = ' ' || c = '\n' || c = '\t' || c = '\r'

def skipBlanks (cs : List Char) : List Char := cs.dropWhile isJsonBlank

def digits? (cs : List Char) : Option (List Char × List Char) :=
  match cs.takeWhile Char.isDigit with
  | [] => none
  | ds => some (ds, cs.dropWhile Char.isDigit)

/-- The integer part: no digit follows a leading zero. -/
def integerPart? : List Char → Option (Nat × List Char)
  | '0' :: rest => some (0, rest)
  | cs => (digits? cs).map fun (ds, rest) => (Nat.ofDigitChars 10 ds 0, rest)

/-- Skips a fraction; the flag tells whether there was one. -/
def fraction? : List Char → Option (Bool × List Char)
  | '.' :: rest => (digits? rest).map fun (_, rest) => (true, rest)
  | cs => some (false, cs)

def exponent? : List Char → Option (Bool × List Char)
  | e :: rest =>
    if e = 'e' || e = 'E' then
      let unsigned := match rest with
        | '+' :: r | '-' :: r => r
        | r => r
      (digits? unsigned).map fun (_, rest) => (true, rest)
    else some (false, e :: rest)
  | [] => some (false, [])

def number? (cs : List Char) : Option (Json × List Char) := do
  let (negative, cs) := match cs with
    | '-' :: rest => (true, rest)
    | cs => (false, cs)
  let (n, cs) ← integerPart? cs
  let (fractional, cs) ← fraction? cs
  let (exponential, cs) ← exponent? cs
  let plain := !fractional && !exponential && !(negative && n == 0)
  return (.number (if plain then some (if negative then -n else n) else none), cs)

def hexValue? (c : Char) : Option Nat :=
  if c.isDigit then some (c.toNat - 48)
  else if 'a' ≤ c ∧ c ≤ 'f' then some (c.toNat - 87)
  else if 'A' ≤ c ∧ c ≤ 'F' then some (c.toNat - 55)
  else none

def unit? : List Char → Option (Nat × List Char)
  | a :: b :: c :: d :: rest => do
    let a ← hexValue? a
    let b ← hexValue? b
    let c ← hexValue? c
    let d ← hexValue? d
    return (((a * 16 + b) * 16 + c) * 16 + d, rest)
  | _ => none

def lowUnit? : List Char → Option (Nat × List Char)
  | '\\' :: 'u' :: rest => (unit? rest).filter fun (n, _) => 0xDC00 ≤ n && n < 0xE000
  | _ => none

def escape? : List Char → Option (Option Char × List Char)
  | '"' :: rest => some (some '"', rest)
  | '\\' :: rest => some (some '\\', rest)
  | '/' :: rest => some (some '/', rest)
  | 'b' :: rest => some (some '\x08', rest)
  | 'f' :: rest => some (some '\x0c', rest)
  | 'n' :: rest => some (some '\n', rest)
  | 'r' :: rest => some (some '\r', rest)
  | 't' :: rest => some (some '\t', rest)
  | 'u' :: rest => do
    let (n, rest) ← unit? rest
    if 0xD800 ≤ n ∧ n < 0xDC00 then
      match lowUnit? rest with
      | some (low, rest) => return (some (Char.ofNat (0x10000 + (n - 0xD800) * 0x400 + (low - 0xDC00))), rest)
      | none => return (none, rest)
    else if 0xDC00 ≤ n ∧ n < 0xE000 then return (none, rest)
    else return (some (Char.ofNat n), rest)
  | _ => none

/-- The rest of a string after its opening quote. `before` holds the characters already read,
the last one first, or `none` once one of them was no character. -/
def stringRest? : Nat → Option (List Char) → List Char → Option (Option String × List Char)
  | 0, _, _ => none
  | _ + 1, _, [] => none
  | fuel + 1, before, c :: rest =>
    if c = '"' then some (before.map fun cs => String.ofList cs.reverse, rest)
    else if c = '\\' then do
      let (e, rest) ← escape? rest
      stringRest? fuel (before.bind fun cs => e.map (· :: cs)) rest
    else if c.toNat < 32 then none
    else stringRest? fuel (before.map (c :: ·)) rest

def string? (cs : List Char) : Option (Option String × List Char) :=
  match cs with
  | '"' :: rest => stringRest? (rest.length + 1) (some []) rest
  | _ => none

def word? (word : String) (value : Json) (cs : List Char) : Option (Json × List Char) :=
  if word.toList.isPrefixOf cs then some (value, cs.drop word.length) else none

/-! The fuel bounds the number of values that are still to come; a text has fewer than
characters. -/

mutual
def value? : Nat → List Char → Option (Json × List Char)
  | 0, _ => none
  | fuel + 1, cs =>
    match skipBlanks cs with
    | [] => none
    | '[' :: rest =>
      match skipBlanks rest with
      | ']' :: rest => some (.array [], rest)
      | _ => items? fuel [] rest
    | '\x7b' :: rest =>
      match skipBlanks rest with
      | '\x7d' :: rest => some (.object [], rest)
      | _ => members? fuel [] rest
    | '"' :: rest => (string? ('"' :: rest)).map fun (s, rest) => (.string s, rest)
    | 't' :: rest => word? "true" (.boolean true) ('t' :: rest)
    | 'f' :: rest => word? "false" (.boolean false) ('f' :: rest)
    | 'n' :: rest => word? "null" .null ('n' :: rest)
    | cs => number? cs
def items? : Nat → List Json → List Char → Option (Json × List Char)
  | 0, _, _ => none
  | fuel + 1, before, cs =>
    match value? fuel cs with
    | none => none
    | some (v, rest) =>
      match skipBlanks rest with
      | ',' :: rest => items? fuel (v :: before) rest
      | ']' :: rest => some (.array (v :: before).reverse, rest)
      | _ => none
def members? : Nat → List (Option String × Json) → List Char → Option (Json × List Char)
  | 0, _, _ => none
  | fuel + 1, before, cs =>
    match string? (skipBlanks cs) with
    | none => none
    | some (key, rest) =>
      match skipBlanks rest with
      | ':' :: rest =>
        match value? fuel rest with
        | none => none
        | some (v, rest) =>
          match skipBlanks rest with
          | ',' :: rest => members? fuel ((key, v) :: before) rest
          | '\x7d' :: rest => some (.object ((key, v) :: before).reverse, rest)
          | _ => none
      | _ => none
end

def ofText? (text : String) : Option Json :=
  let cs := text.toList
  match value? (2 * cs.length + 2) cs with
  | some (v, rest) => if (skipBlanks rest).isEmpty then some v else none
  | none => none

def toBool? : Json → Option Bool
  | .boolean b => some b
  | _ => none

def toInt? : Json → Option Int
  | .number n => n
  | _ => none

def toString? : Json → Option String
  | .string s => s
  | _ => none

def toList? : Json → Option (List Json)
  | .array items => some items
  | _ => none

def listOf? {α : Type} (read : Json → Option α) (j : Json) : Option (List α) := do
  (← j.toList?).mapM read

/-- The members of an object, if all names are texts. -/
def members : Json → Option (List (String × Json))
  | .object members => members.mapM fun (name, v) => name.map (·, v)
  | _ => none

end Json
end ResourceQuery
