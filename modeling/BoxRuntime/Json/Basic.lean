/-
  JSON values and their text.

  A value keeps what its text says: the members of an object in order, repeated names included, and
  a string even if its escapes write half a character, in which case it has no text (`none`).
  Integers of 64 bits, signed or not, are kept as such; of any other number the significand and the
  power of ten.

  `Json.render` writes a value without blanks.
-/

namespace BoxRuntime

/-- A JSON value. -/
inductive Json where
  | null
  | bool (b : Bool)
  /-- A 64-bit integer, signed or unsigned. -/
  | int (n : Int)
  /-- Any other number: significand times a power of ten, with a sign. -/
  | real (negative : Bool) (significand : Nat) (exponent : Int)
  | string (text : Option String)
  | array (elements : List Json)
  | object (members : List (Option String × Json))

namespace Json

/-- The string with a given text. -/
def text (s : String) : Json :=
  .string (some s)

/-- The object with members of given names. -/
def ofMembers (members : List (String × Json)) : Json :=
  .object (members.map fun m => (some m.1, m.2))

/-! ## Text -/

/-- A digit of hexadecimal numbers, in lower case. -/
def hexDigit (n : Nat) : Char :=
  if n < 10 then Char.ofNat ('0'.toNat + n) else Char.ofNat ('a'.toNat + (n - 10))

/-- A character inside a string.  Quotes, backslashes and control characters are escaped, and
nothing else is. -/
def escapeChar (c : Char) : List Char :=
  if c = '"' then ['\\', '"']
  else if c = '\\' then ['\\', '\\']
  else if c = '\x08' then ['\\', 'b']
  else if c = '\x0c' then ['\\', 'f']
  else if c = '\n' then ['\\', 'n']
  else if c = '\r' then ['\\', 'r']
  else if c = '\t' then ['\\', 't']
  else if c.toNat < 0x20 then
    ['\\', 'u', '0', '0', hexDigit (c.toNat / 16), hexDigit (c.toNat % 16)]
  else [c]

/-- A string between quotes.  One without a text is written as a lone half of a character. -/
def stringChars : Option String → List Char
  | some s => '"' :: (s.toList.flatMap escapeChar ++ ['"'])
  | none => ['"', '\\', 'u', 'd', '8', '0', '0', '"']

/-- An integer in decimal notation. -/
def intChars (n : Int) : List Char :=
  if n < 0 then '-' :: Nat.toDigits 10 n.natAbs else Nat.toDigits 10 n.natAbs

mutual

/-- The text of a value. -/
def chars : Json → List Char
  | null => ['n', 'u', 'l', 'l']
  | bool true => ['t', 'r', 'u', 'e']
  | bool false => ['f', 'a', 'l', 's', 'e']
  | int n => intChars n
  | real negative significand exponent =>
    (if negative then ['-'] else []) ++ Nat.toDigits 10 significand ++ 'e' :: intChars exponent
  | string text => stringChars text
  | array elements => '[' :: (elementChars elements ++ [']'])
  | object members => '{' :: (memberChars members ++ ['}'])

/-- The elements of an array, with commas between them. -/
def elementChars : List Json → List Char
  | [] => []
  | [v] => v.chars
  | v :: vs => v.chars ++ ',' :: elementChars vs

/-- The members of an object, with commas between them. -/
def memberChars : List (Option String × Json) → List Char
  | [] => []
  | [(k, v)] => stringChars k ++ ':' :: v.chars
  | (k, v) :: ms => stringChars k ++ ':' :: v.chars ++ ',' :: memberChars ms

end

/-- The text of a value. -/
def render (v : Json) : String :=
  String.ofList v.chars

/-! ## Shape -/

mutual

/-- How deep arrays and objects are nested in a value. -/
def depth : Json → Nat
  | array elements => elementDepth elements + 1
  | object members => memberDepth members + 1
  | _ => 0

/-- The depth of the deepest of some elements. -/
def elementDepth : List Json → Nat
  | [] => 0
  | v :: vs => max v.depth (elementDepth vs)

/-- The depth of the deepest of some members. -/
def memberDepth : List (Option String × Json) → Nat
  | [] => 0
  | (_, v) :: ms => max v.depth (memberDepth ms)

end

end Json

end BoxRuntime
