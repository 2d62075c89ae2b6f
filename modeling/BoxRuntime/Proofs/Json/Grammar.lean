/-
  The grammar of JSON text.

  `Json.HasText v s` says that the text `s` writes the value `v` by the rules of JSON: with any
  blanks around the tokens, with any of the escapes in a string, and with numbers in decimal
  notation.  It is the grammar as it is usually printed, as a relation between values and texts, and
  it knows nothing of how texts are read.  Of numbers it has those that are kept as integers.

  The main statement here is that what `Json.render` prints is a text of the value
  (`hasText_render`), if the value has no other numbers and its strings have texts (`isPlain`).
-/
import BoxRuntime.Json.Decode
import BoxRuntime.Json.Parser

namespace BoxRuntime.Json

/-! ## Strings

  A character may be written as it is, by a short escape, by its code, or by the codes of two
  halves. `Spells` has one rule for each. -/

/-- A hexadecimal digit with its value, in letters of either case. -/
def IsHexDigit (d : Char) (n : Nat) : Prop :=
  n < 16 ∧ (d = hexDigit n ∨ d = (hexDigit n).toUpper)

/-- Four hexadecimal digits that write a number. -/
inductive WritesCode : Nat → List Char → Prop
  | digits {a b c d : Char} {i j k l : Nat} (ha : IsHexDigit a i) (hb : IsHexDigit b j)
      (hc : IsHexDigit c k) (hd : IsHexDigit d l) :
      WritesCode (((i * 16 + j) * 16 + k) * 16 + l) [a, b, c, d]

/-- The letters that may follow a backslash, each with the character it stands for. -/
def shortEscapes : List (Char × Char) :=
  [('"', '"'), ('\\', '\\'), ('/', '/'), ('b', '\x08'), ('f', '\x0c'), ('n', '\n'), ('r', '\r'),
    ('t', '\t')]

/-- The characters of a string, and the ways to spell them between quotes: as they are, unless they
are quotes, backslashes or control characters; by a letter; by their number; by two numbers if one
has not digits enough. -/
inductive Spells : List Char → List Char → Prop
  | nil : Spells [] []
  | plain {c : Char} {cs s : List Char} (hquote : c ≠ '"') (hslash : c ≠ '\\')
      (hcontrol : 0x20 ≤ c.toNat) (h : Spells cs s) : Spells (c :: cs) (c :: s)
  | short {c e : Char} {cs s : List Char} (he : (e, c) ∈ shortEscapes) (h : Spells cs s) :
      Spells (c :: cs) ('\\' :: e :: s)
  | code {c : Char} {cs code s : List Char} (hcode : WritesCode c.toNat code) (h : Spells cs s) :
      Spells (c :: cs) ('\\' :: 'u' :: (code ++ s))
  | halves {c : Char} {n m : Nat} {cs lead trail s : List Char} (hn : isLead n) (hm : isTrail m)
      (hc : c.toNat = 0x10000 + (n - 0xd800) * 0x400 + (m - 0xdc00)) (hlead : WritesCode n lead)
      (htrail : WritesCode m trail) (h : Spells cs s) :
      Spells (c :: cs) ('\\' :: 'u' :: (lead ++ '\\' :: 'u' :: (trail ++ s)))

/-! ## Values

  One rule for each kind of value, with blanks wherever the grammar lets them stand. Elements and
  members are lists with at least one item. -/

/-- Nothing but blanks. -/
def Blanks (s : List Char) : Prop :=
  ∀ c ∈ s, isBlank c = true

mutual

/-- A value, without blanks around it. -/
inductive ValueText : Json → List Char → Prop
  | null : ValueText .null ['n', 'u', 'l', 'l']
  | boolTrue : ValueText (.bool true) ['t', 'r', 'u', 'e']
  | boolFalse : ValueText (.bool false) ['f', 'a', 'l', 's', 'e']
  | int {n : Int} (hlow : -(intBound : Int) ≤ n) (hhigh : n ≤ maxWord) :
      ValueText (.int n) (intChars n)
  | string {t : String} {s : List Char} (h : Spells t.toList s) :
      ValueText (.string (some t)) ('"' :: (s ++ ['"']))
  | noElements {b : List Char} (hb : Blanks b) : ValueText (.array []) ('[' :: (b ++ [']']))
  | array {vs : List Json} {s : List Char} (h : ElementsText vs s) :
      ValueText (.array vs) ('[' :: (s ++ [']']))
  | noMembers {b : List Char} (hb : Blanks b) : ValueText (.object []) ('{' :: (b ++ ['}']))
  | object {ms : List (Option String × Json)} {s : List Char} (h : MembersText ms s) :
      ValueText (.object ms) ('{' :: (s ++ ['}']))

/-- A value with any blanks around it. -/
inductive ElementText : Json → List Char → Prop
  | between {v : Json} {b s b' : List Char} (hb : Blanks b) (h : ValueText v s) (hb' : Blanks b') :
      ElementText v (b ++ (s ++ b'))

/-- The elements of an array: one at least, with commas between them. -/
inductive ElementsText : List Json → List Char → Prop
  | one {v : Json} {s : List Char} (h : ElementText v s) : ElementsText [v] s
  | more {v : Json} {vs : List Json} {s t : List Char} (h : ElementText v s)
      (hmore : ElementsText vs t) : ElementsText (v :: vs) (s ++ ',' :: t)

/-- A member of an object: a string with any blanks around it, a colon and a value. -/
inductive MemberText : Option String × Json → List Char → Prop
  | pair {k : String} {v : Json} {b s b' t : List Char} (hb : Blanks b) (hk : Spells k.toList s)
      (hb' : Blanks b') (h : ElementText v t) :
      MemberText (some k, v) (b ++ '"' :: (s ++ '"' :: (b' ++ ':' :: t)))

/-- The members of an object: one at least, with commas between them. -/
inductive MembersText : List (Option String × Json) → List Char → Prop
  | one {m : Option String × Json} {s : List Char} (h : MemberText m s) : MembersText [m] s
  | more {m : Option String × Json} {ms : List (Option String × Json)} {s t : List Char}
      (h : MemberText m s) (hmore : MembersText ms t) : MembersText (m :: ms) (s ++ ',' :: t)

end

/-- The text `s` writes the value. -/
def HasText (v : Json) (s : String) : Prop :=
  ElementText v s.toList

/-! ## Printing

  The printer writes no blanks and only the escapes that are needed, so what it prints is one of
  the many texts of a value. -/

mutual

/-- All numbers in the value are integers of 64 bits, and all strings have a text. -/
def isPlain : Json → Bool
  | .int n => -(intBound : Int) ≤ n && n ≤ maxWord
  | .real .. => false
  | .string t => t.isSome
  | .array elements => elementsPlain elements
  | .object members => membersPlain members
  | _ => true

def elementsPlain : List Json → Bool
  | [] => true
  | v :: vs => v.isPlain && elementsPlain vs

def membersPlain : List (Option String × Json) → Bool
  | [] => true
  | (k, v) :: ms => k.isSome && v.isPlain && membersPlain ms

end

/-- The digit that is written for a number below sixteen stands for it. -/
theorem isHexDigit_hexDigit {n : Nat} (hn : n < 16) : IsHexDigit (hexDigit n) n :=
  ⟨hn, .inl rfl⟩

/-- Every character is escaped as the grammar allows. -/
theorem spells_escapeChar (c : Char) {cs s : List Char} (h : Spells cs s) :
    Spells (c :: cs) (escapeChar c ++ s) := by
  unfold escapeChar
  -- seven characters have letters of their own
  iterate 7
    split
    case isTrue hc => exact .short (by rw [hc]; decide) h
  split
  case isTrue hc =>
    have hcode := WritesCode.digits (isHexDigit_hexDigit (n := 0) (by decide))
      (isHexDigit_hexDigit (n := 0) (by decide))
      (isHexDigit_hexDigit (n := c.toNat / 16) (by omega))
      (isHexDigit_hexDigit (n := c.toNat % 16) (by omega))
    have hnumber : ((0 * 16 + 0) * 16 + c.toNat / 16) * 16 + c.toNat % 16 = c.toNat := by omega
    rw [hnumber] at hcode
    exact .code hcode h
  case isFalse hquote hslash _ _ _ _ _ hcontrol =>
    exact .plain hquote hslash (Nat.not_lt.mp hcontrol) h

/-- A text that is escaped character by character spells the text. -/
theorem spells_flatMap_escapeChar (cs : List Char) : Spells cs (cs.flatMap escapeChar) := by
  induction cs with
  | nil => exact .nil
  | cons c cs ih =>
    rw [List.flatMap_cons]
    exact spells_escapeChar c ih

/-- An element may stand between blanks, but need not. -/
theorem ValueText.element {v : Json} {s : List Char} (h : ValueText v s) : ElementText v s := by
  have hbetween := @ElementText.between v [] s [] nofun h nofun
  rwa [List.nil_append, List.append_nil] at hbetween

/-- A member is written with its name in quotes and no blanks. -/
theorem memberText_chars {k : Option String} {v : Json} {s : List Char} (hk : k.isSome)
    (h : ElementText v s) : MemberText (k, v) (stringChars k ++ ':' :: s) := by
  rcases k with _ | k
  · exact absurd hk (by decide)
  · have hpair := @MemberText.pair k v [] _ [] s nofun (spells_flatMap_escapeChar k.toList) nofun h
    simpa [stringChars] using hpair

mutual

/-- What is written for a plain value is a text of it.  Its parts follow by the same recursion as
the values. -/
theorem valueText_chars : ∀ v : Json, v.isPlain → ValueText v v.chars
  | .null, _ => .null
  | .bool true, _ => .boolTrue
  | .bool false, _ => .boolFalse
  | .int n, h => by
    simp only [isPlain, Bool.and_eq_true, decide_eq_true_eq] at h
    exact .int h.1 h.2
  | .real .., h => absurd h (by simp [isPlain])
  | .string none, h => absurd h (by simp [isPlain])
  | .string (some t), _ => .string (spells_flatMap_escapeChar t.toList)
  | .array [], _ => .noElements nofun
  | .array (v :: vs), h => .array (elementsText_chars (v :: vs) nofun h)
  | .object [], _ => .noMembers nofun
  | .object (m :: ms), h => .object (membersText_chars (m :: ms) nofun h)

theorem elementsText_chars : ∀ vs : List Json, vs ≠ [] → elementsPlain vs →
    ElementsText vs (elementChars vs)
  | [], hne, _ => absurd rfl hne
  | [v], _, h => by
    simp only [elementsPlain, Bool.and_true] at h
    exact .one (valueText_chars v h).element
  | v :: v' :: vs, _, h => by
    rw [elementsPlain, Bool.and_eq_true] at h
    exact .more (valueText_chars v h.1).element (elementsText_chars (v' :: vs) nofun h.2)

theorem membersText_chars : ∀ ms : List (Option String × Json), ms ≠ [] → membersPlain ms →
    MembersText ms (memberChars ms)
  | [], hne, _ => absurd rfl hne
  | [(k, v)], _, h => by
    simp only [membersPlain, Bool.and_true, Bool.and_eq_true] at h
    exact .one (memberText_chars h.1 (valueText_chars v h.2).element)
  | (k, v) :: m :: ms, _, h => by
    rw [membersPlain, Bool.and_eq_true, Bool.and_eq_true] at h
    exact .more (memberText_chars h.1.1 (valueText_chars v h.1.2).element)
      (membersText_chars (m :: ms) nofun h.2)

end

/-- **What is printed of a plain value is a text of it.** -/
theorem hasText_render {v : Json} (hv : v.isPlain) : v.HasText v.render := by
  rw [HasText, render, String.toList_ofList]
  exact (valueText_chars v hv).element

end BoxRuntime.Json
