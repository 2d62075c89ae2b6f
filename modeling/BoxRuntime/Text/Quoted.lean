/-
  Quoted text.

  Diagnostics show a string between double quotes.  A quote and a backslash are preceded by a
  backslash, five characters have letters of their own, and any other character that is not
  printable is written by its code point in lower-case hexadecimal, between braces.
-/
import BoxRuntime.Text.Printable

namespace BoxRuntime.Text

/-- The digits of a number in lower-case hexadecimal, without padding. -/
def hex (n : Nat) : String :=
  String.ofList (Nat.toDigits 16 n)

/-- One character as quoted text shows it. -/
def quoteChar (c : Char) : String :=
  if c = '"' then "\\\""
  else if c = '\\' then "\\\\"
  else if c = '\n' then "\\n"
  else if c = '\r' then "\\r"
  else if c = '\t' then "\\t"
  else if c = '\x00' then "\\0"
  else if printable c then c.toString
  else "\\u\x7b" ++ hex c.toNat ++ "\x7d"

/-- A string as diagnostics show it. -/
def quote (s : String) : String :=
  "\"" ++ String.join (s.toList.map quoteChar) ++ "\""

example : quote "a\"b\\\n\x1f" = "\"a\\\"b\\\\\\n\\u\x7b1f\x7d\"" := by decide +kernel

/-- Quoted strings as a bracketed list. -/
def quoteList (names : List String) : String :=
  "[" ++ ", ".intercalate (names.map quote) ++ "]"

end BoxRuntime.Text
