import ResourceQuery.Parameters
import ResourceQuery.Query.Printer

/-! # Query strings

Keys and values are encoded byte by byte over UTF-8, and joined by `=` and `&`. An encoded text
has none of these two characters.
-/
namespace ResourceQuery

def isUnreserved (b : UInt8) : Bool :=
  let c := Char.ofNat b.toNat
  b < 128 && (c.isAlphanum || "'.~-_()$".toList.contains c)

def hexDigit (n : Nat) : Char := if n < 10 then Char.ofNat (48 + n) else Char.ofNat (55 + n)

/-- A space is `+`, and every other reserved byte `%` with two digits. -/
def encodeByte (b : UInt8) : List Char :=
  if b = 32 then ['+']
  else if isUnreserved b then [Char.ofNat b.toNat]
  else ['%', hexDigit (b.toNat / 16), hexDigit (b.toNat % 16)]

def encodeText (s : String) : String :=
  String.ofList ((s.toList.flatMap String.utf8EncodeChar).flatMap encodeByte)

/-- The query part of a URI, which is built up by writing at its end. -/
structure QueryString where
  text : String := ""
  deriving DecidableEq

namespace QueryString

def isEmpty (q : QueryString) : Bool := q.text.isEmpty

def write (text : String) : StateM QueryString Unit := modify fun q => ⟨q.text ++ text⟩

def append (key value : String) : StateM QueryString Unit := do
  if !(← get).isEmpty then write "&"
  write (encodeText key)
  write "="
  write (encodeText value)

def appendParameters (p : Parameters) : StateM QueryString Unit :=
  p.pairs.forM fun pair => append pair.1 pair.2

/-- The tree is printed before anything is written. -/
def appendQuery (key : String) (tree : Query) : ExceptT CompileError (StateM QueryString) Unit := do
  let text ← tree.print
  append key text

end QueryString
end ResourceQuery
