import ArtPi.Lib.Numerals

set_option autoImplicit false

/-! # Listings read line by line

A text that is read through a buffer, which cuts long lines, and the numbers of a line. -/

namespace ArtPi.Lib.Listing

abbrev Text := List UInt8

def newline : UInt8 := 0x0a

/-- The reads of `fgets` into a buffer that takes `room` characters, `free` of them still free. -/
def fgetsFrom (room free : Nat) (cur : Text) : Text → List Text
  | [] => if cur = [] then [] else [cur]
  | b :: rest =>
    if b = newline ∨ free ≤ 1 then (cur ++ [b]) :: fgetsFrom room room [] rest
    else fgetsFrom room (free - 1) (cur ++ [b]) rest

def fgets (room : Nat) (text : Text) : List Text := fgetsFrom room room [] text

/-- Lines with their ends. -/
def unlines (lines : List Text) : Text := lines.flatMap (· ++ [newline])

/-- `%lx`: a number in hexadecimal digits, and what is behind it. -/
def scanHex (t : Text) : Option (UInt64 × Text) :=
  (Numerals.read 16 t).map fun r => (Numerals.strtoull 16 t, r.rest)

/-- `%lx-%lx` -/
def scanRange (t : Text) : Option ((UInt64 × UInt64) × Text) :=
  (scanHex t).bind fun (start, rest) =>
    if rest.head? = some 0x2d then (scanHex rest.tail).map fun (stop, rest) => ((start, stop), rest) else none

/-- `%Ns`, a word of at most so many characters. -/
def scanWord (width : Nat) (t : Text) : Option (Text × Text) :=
  let t := t.dropWhile Numerals.isSpace
  let word := (t.take width).takeWhile (!Numerals.isSpace ·)
  if word = [] then none else some (word, t.drop word.length)

/-! ## Numbers -/

/-- The hexadecimal digits of a number. -/
def hex (n : UInt64) : Text := Numerals.spell 16 n.toNat

end ArtPi.Lib.Listing
