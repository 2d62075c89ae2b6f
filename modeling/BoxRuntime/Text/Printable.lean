/-
  Printable characters.

  Quoted text (`Text/Quoted`) shows a printable character as it is and any other by its number.
  Not printable are the control characters, the invisible format characters, the letters that fill
  the place of a missing one and show nothing, every blank other than the plain space, and the
  characters left to private agreement.
-/

namespace BoxRuntime.Text

/-- The ranges of code points that are not printable: controls, blanks, line and paragraph
separators, format characters, fillers, private use. -/
def hiddenRanges : List (Nat × Nat) :=
  [ -- controls, of both blocks
    (0x00, 0x1f), (0x7f, 0x9f),
    -- blanks and separators
    (0xa0, 0xa0), (0x1680, 0x1680), (0x2000, 0x200a), (0x2028, 0x2029), (0x202f, 0x202f),
    (0x205f, 0x205f), (0x3000, 0x3000),
    -- format characters
    (0xad, 0xad), (0x600, 0x605), (0x61c, 0x61c), (0x6dd, 0x6dd), (0x70f, 0x70f),
    (0x890, 0x891), (0x8e2, 0x8e2), (0x180e, 0x180e), (0x200b, 0x200f), (0x202a, 0x202e),
    (0x2060, 0x2064), (0x2066, 0x206f), (0xfeff, 0xfeff), (0xfff9, 0xfffb),
    (0x110bd, 0x110bd), (0x110cd, 0x110cd), (0x13430, 0x1343f), (0x1bca0, 0x1bca3),
    (0x1d173, 0x1d17a), (0xe0001, 0xe0001), (0xe0020, 0xe007f),
    -- fillers of Hangul syllables
    (0x115f, 0x1160), (0x3164, 0x3164), (0xffa0, 0xffa0),
    -- private use
    (0xe000, 0xf8ff), (0xf0000, 0x10ffff) ]

/-- Whether quoted text shows the character as it is. -/
def printable (c : Char) : Bool :=
  !hiddenRanges.any fun r => r.1 ≤ c.toNat && c.toNat ≤ r.2

example : printable ' ' ∧ printable 'é' ∧ printable '字' ∧ ¬ printable '\n' := by decide

example : printable '\uff9f' ∧ ¬ printable '\uffa0' := by decide

end BoxRuntime.Text
