/-! # Searching and replacing in texts

Positions count characters, although a search from within a text goes through its bytes. An empty text
is found at once.
-/
namespace ResourceQuery.Text

def position? {α : Type} [BEq α] (needle : List α) : List α → Option Nat
  | [] => if needle.isPrefixOf [] then some 0 else none
  | c :: rest =>
    if needle.isPrefixOf (c :: rest) then some 0 else (position? needle rest).map (· + 1)

def contains (needle s : List Char) : Bool := (position? needle s).isSome

def bytes (s : List Char) : List UInt8 := s.flatMap String.utf8EncodeChar

/-- The byte position of every character, where the first one is at `offset`. -/
def charOffsets (offset : Nat) : List Char → List Nat
  | [] => []
  | c :: rest => offset :: charOffsets (offset + c.utf8Size) rest

def offsetOf (s : List Char) (start : Nat) : Nat := (charOffsets 0 s)[start]?.getD (bytes s).length

/-- The characters that begin among the bytes. -/
def charCount (bs : List UInt8) : Nat := bs.countP fun b => decide b.IsUTF8FirstByte

/-- Looks for the bytes of `needle` from the character at `start` on, and counts the characters before
the place where they are found. -/
def indexFrom? (needle : List Char) (start : Nat) (s : List Char) : Option Nat :=
  let offset := offsetOf s start
  (position? (bytes needle) ((bytes s).drop offset)).map fun found =>
    charCount ((bytes s).take (offset + found))

/-- Replaces what was found from left to right; `skip` characters still belong to the last
find. -/
def replaceFound (needle replacement : List Char) : Nat → List Char → List Char
  | _, [] => []
  | skip + 1, _ :: rest => replaceFound needle replacement skip rest
  | 0, c :: rest =>
    if needle.isPrefixOf (c :: rest) then
      replacement ++ replaceFound needle replacement (needle.length - 1) rest
    else c :: replaceFound needle replacement 0 rest

/-- Replaces every occurrence. An empty text occurs before, after and between all characters. -/
def replace (needle replacement s : List Char) : List Char :=
  if needle.isEmpty then replacement ++ s.flatMap (· :: replacement)
  else replaceFound needle replacement 0 s

end ResourceQuery.Text
