/-
  Tokens of JSON text.

  `token?` reads one token from the front of a text that does not start with a blank.  It takes
  the longest run of digits for a number, so what follows a token is never part of it.  Each token
  takes at least one character (`token?_length`), which is why reading a text ends.
-/
import BoxRuntime.Json.Basic
import BoxRuntime.Json.Range

namespace BoxRuntime.Json

/-- A token of JSON text. -/
inductive Token where
  | openArray
  | closeArray
  | openObject
  | closeObject
  | colon
  | comma
  | string (text : Option String)
  /-- A number, a truth value or null. -/
  | scalar (v : Json)

/-- The characters that may stand between tokens. -/
def isBlank (c : Char) : Bool :=
  c == ' ' || c == '\t' || c == '\n' || c == '\r'

/-! ## Strings -/

/-- A part of a string as written: a character, or the number in a `\u` escape. -/
inductive Piece where
  | char (c : Char)
  | code (n : Nat)

def hexValue? (c : Char) : Option Nat :=
  if '0' ≤ c ∧ c ≤ '9' then some (c.toNat - '0'.toNat)
  else if 'a' ≤ c ∧ c ≤ 'f' then some (c.toNat - 'a'.toNat + 10)
  else if 'A' ≤ c ∧ c ≤ 'F' then some (c.toNat - 'A'.toNat + 10)
  else none

/-- The number that four hexadecimal digits write. -/
def hex4? (a b c d : Char) : Option Nat := do
  return (((← hexValue? a) * 16 + (← hexValue? b)) * 16 + (← hexValue? c)) * 16 + (← hexValue? d)

/-- The character that a letter after a backslash stands for. -/
def escaped? (c : Char) : Option Char :=
  if c = '"' then some '"'
  else if c = '\\' then some '\\'
  else if c = '/' then some '/'
  else if c = 'b' then some '\x08'
  else if c = 'f' then some '\x0c'
  else if c = 'n' then some '\n'
  else if c = 'r' then some '\r'
  else if c = 't' then some '\t'
  else none

/-- Reads a string up to its closing quote. -/
def pieces? : List Char → Option (List Piece × List Char)
  | [] => none
  | '"' :: rest => some ([], rest)
  | '\\' :: 'u' :: a :: b :: c :: d :: rest => do
    let n ← hex4? a b c d
    let (ps, rest) ← pieces? rest
    return (.code n :: ps, rest)
  | '\\' :: e :: rest => do
    let c ← escaped? e
    let (ps, rest) ← pieces? rest
    return (.char c :: ps, rest)
  | c :: rest =>
    if c.toNat < 0x20 then none
    else do
      let (ps, rest) ← pieces? rest
      return (.char c :: ps, rest)

/-- The first half of a character beyond the 16-bit numbers. -/
def isLead (n : Nat) : Bool :=
  0xd800 ≤ n && n ≤ 0xdbff

/-- The second half of a character beyond the 16-bit numbers. -/
def isTrail (n : Nat) : Bool :=
  0xdc00 ≤ n && n ≤ 0xdfff

/-- The character that two halves make. -/
def joinHalves (lead trail : Nat) : Char :=
  Char.ofNat (0x10000 + (lead - 0xd800) * 0x400 + (trail - 0xdc00))

/-- The characters of a string; there are none if a half stands alone. -/
def decode? : List Piece → Option (List Char)
  | [] => some []
  | .char c :: ps => (decode? ps).map (c :: ·)
  | .code n :: ps =>
    if isLead n then
      match ps with
      | .code m :: ps => if isTrail m then (decode? ps).map (joinHalves n m :: ·) else none
      | _ => none
    else if isTrail n then none
    else (decode? ps).map (Char.ofNat n :: ·)

/-- Reads a string whose opening quote has been read. -/
def string? (s : List Char) : Option (Option String × List Char) :=
  (pieces? s).map fun (ps, rest) => ((decode? ps).map String.ofList, rest)

/-! ## Numbers -/

def isDigit (c : Char) : Bool :=
  '0' ≤ c && c ≤ '9'

def digitValue (c : Char) : Nat :=
  c.toNat - '0'.toNat

/-- The digits in front, by value, and what follows them. -/
def digits (s : List Char) : List Nat × List Char :=
  ((s.takeWhile isDigit).map digitValue, s.dropWhile isDigit)

/-- The number that decimal digits write. -/
def ofDigits (ds : List Nat) : Nat :=
  ds.foldl (fun n d => n * 10 + d) 0

/-- The digits after a point, if there is one; a point needs a digit after it. -/
def fraction? : List Char → Option (Option (List Nat) × List Char)
  | '.' :: s =>
    let (ds, rest) := digits s
    if ds.isEmpty then none else some (some ds, rest)
  | s => some (none, s)

/-- The sign in front of an exponent: whether it is negative, and what follows. -/
def exponentSign : List Char → Bool × List Char
  | '-' :: s => (true, s)
  | '+' :: s => (false, s)
  | s => (false, s)

/-- The exponent, if there is one; it needs a digit. -/
def exponent? : List Char → Option (Option Int × List Char)
  | c :: s =>
    if c = 'e' ∨ c = 'E' then
      let (negative, s) := exponentSign s
      let (ds, rest) := digits s
      if ds.isEmpty then none
      else
        let n : Int := ofDigits ds
        some (some (if negative then -n else n), rest)
    else some (none, c :: s)
  | [] => some (none, [])

/-- The value of a number: an integer if it is written as one, has 64 bits and is not minus
zero. -/
def numberValue (negative : Bool) (whole : List Nat) (fraction : Option (List Nat))
    (exponent : Option Int) : Json :=
  let n := ofDigits whole
  let (significand, power) := significant whole (fraction.getD []) (exponent.getD 0)
  if fraction.isSome || exponent.isSome then .real negative significand power
  else if negative then
    if 0 < n ∧ n ≤ intBound then .int (-n) else .real negative significand power
  else if n ≤ maxWord then .int n
  else .real negative significand power

/-- Reads a number whose sign has been read.  Zero does not start a longer number. -/
def number? (negative : Bool) (s : List Char) : Option (Json × List Char) := do
  let (whole, rest) := digits s
  if whole.isEmpty ∨ (whole.head? = some 0 ∧ 1 < whole.length) then none
  let (fraction, rest) ← fraction? rest
  let (exponent, rest) ← exponent? rest
  return (numberValue negative whole fraction exponent, rest)

/-! ## Tokens -/

/-- Reads the token in front. -/
def token? : List Char → Option (Token × List Char)
  | '[' :: rest => some (.openArray, rest)
  | ']' :: rest => some (.closeArray, rest)
  | '{' :: rest => some (.openObject, rest)
  | '}' :: rest => some (.closeObject, rest)
  | ':' :: rest => some (.colon, rest)
  | ',' :: rest => some (.comma, rest)
  | '"' :: rest => (string? rest).map fun (t, rest) => (.string t, rest)
  | 'n' :: 'u' :: 'l' :: 'l' :: rest => some (.scalar .null, rest)
  | 't' :: 'r' :: 'u' :: 'e' :: rest => some (.scalar (.bool true), rest)
  | 'f' :: 'a' :: 'l' :: 's' :: 'e' :: rest => some (.scalar (.bool false), rest)
  | '-' :: rest => (number? true rest).map fun (v, rest) => (.scalar v, rest)
  | c :: rest =>
    if isDigit c then (number? false (c :: rest)).map fun (v, rest) => (.scalar v, rest)
    else none
  | [] => none

/-! ## Tokens are not empty -/

/-- A string has its closing quote at least, so there is less text after it. -/
theorem pieces?_length {s rest : List Char} {ps : List Piece} (h : pieces? s = some (ps, rest)) :
    rest.length < s.length := by
  fun_induction pieces? s generalizing ps rest <;>
    simp_all [Option.bind_eq_some_iff] <;> grind

theorem digits_length (s : List Char) : (digits s).2.length ≤ s.length := by
  simpa [digits] using (List.dropWhile_sublist _).length_le

/-- If there are digits they are taken off. -/
theorem digits_length_lt {s : List Char} (h : (digits s).1 ≠ []) :
    (digits s).2.length < s.length := by
  have hl := congrArg List.length (List.takeWhile_append_dropWhile (p := isDigit) (l := s))
  have : (s.takeWhile isDigit).length ≠ 0 := by simpa [digits] using h
  simp only [List.length_append] at hl
  simp only [digits]
  omega

theorem fraction?_length {s rest : List Char} {f : Option (List Nat)}
    (h : fraction? s = some (f, rest)) : rest.length ≤ s.length := by
  unfold fraction? at h
  split at h
  · rename_i s
    have := digits_length s
    simp only at h
    split at h <;> simp_all
    obtain ⟨_, rfl⟩ := h
    omega
  · simp_all

/-- A sign may be missing. -/
theorem exponentSign_length (s : List Char) : (exponentSign s).2.length ≤ s.length := by
  unfold exponentSign
  split <;> simp

theorem exponent?_length {s rest : List Char} {e : Option Int}
    (h : exponent? s = some (e, rest)) : rest.length ≤ s.length := by
  unfold exponent? at h
  -- The letter, then a sign that may be missing, then digits, of which there must be one.
  split at h
  · rename_i c s
    split at h
    · have h₁ := exponentSign_length s
      have h₂ := digits_length (exponentSign s).2
      simp only at h
      split at h <;> simp_all
      obtain ⟨_, rfl⟩ := h
      omega
    · simp_all
  · simp_all

/-- A number has a digit at least. -/
theorem number?_length {negative : Bool} {s rest : List Char} {v : Json}
    (h : number? negative s = some (v, rest)) : rest.length < s.length := by
  unfold number? at h
  simp only [Option.bind_eq_bind] at h
  split at h
  · simp at h
  · rename_i hw
    have hne : (digits s).1 ≠ [] := by
      -- No digits at all is no number, and that is the one case that would read nothing.
      intro he
      simp [he] at hw
    obtain ⟨⟨f, r₁⟩, hf, h⟩ := Option.bind_eq_some_iff.1 h
    obtain ⟨⟨e, r₂⟩, he, h⟩ := Option.bind_eq_some_iff.1 h
    obtain ⟨_, rfl⟩ : _ ∧ r₂ = rest := by simpa using h
    have h₁ := digits_length_lt hne
    have h₂ := fraction?_length hf
    have h₃ := exponent?_length he
    simp only at h₃
    omega

/-- Whatever the token, something of the text is taken off.  This is why the lexer ends. -/
theorem token?_length {s rest : List Char} {t : Token} (h : token? s = some (t, rest)) :
    rest.length < s.length := by
  unfold token? at h
  -- One case for each first character; only strings and numbers read more than that.
  split at h <;> simp_all [string?]
  · obtain ⟨_, hp, _⟩ := h
    have := pieces?_length hp
    omega
  · omega
  · omega
  · omega
  · obtain ⟨_, hp, _⟩ := h
    have := number?_length hp
    omega
  · obtain ⟨_, _, hp, _⟩ := h
    simpa using number?_length hp

end BoxRuntime.Json
