/-
  Reading what the grammar writes.

  The reader is complete (`parse?_of_hasText`): whatever way a value is written, it finds this value
  and no other.  So a value that is printed is read back (`parse?_render`), and values that are
  printed alike are equal (`render_inj`).

  The crux is that the reader does not follow the grammar but keeps a stack of open arrays and
  objects.  What is proved of each part of the grammar is therefore where its text takes the reader,
  from any stack and with any text to follow (`run_value`, `run_elements`, `run_members`).  What
  follows matters for numbers alone, which end where no digit comes next.
-/
import BoxRuntime.Proofs.Json.Grammar
import Std.Data.String.ToNat

namespace BoxRuntime.Json

/-! ## Strings

  First the characters up to the closing quote, then the codes among them; two codes may stand for
  one character. -/

/-- A hexadecimal digit of either case is read as its number. -/
theorem hexValue?_of_isHexDigit {d : Char} {n : Nat} (h : IsHexDigit d n) :
    hexValue? d = some n := by
  have hall : ∀ n < 16,
      hexValue? (hexDigit n) = some n ∧ hexValue? (hexDigit n).toUpper = some n := by
    decide
  obtain ⟨hlt, rfl | rfl⟩ := h
  · exact (hall n hlt).1
  · exact (hall n hlt).2

/-- A number after a backslash and a `u` is one piece of a string. -/
theorem pieces?_code {n : Nat} {code : List Char} (hcode : WritesCode n code) (s : List Char) :
    pieces? ('\\' :: 'u' :: (code ++ s)) =
      (pieces? s).map fun r => (.code n :: r.1, r.2) := by
  obtain ⟨ha, hb, hc, hd⟩ := hcode
  simp only [List.cons_append, List.nil_append, pieces?, hex4?, hexValue?_of_isHexDigit ha,
    hexValue?_of_isHexDigit hb, hexValue?_of_isHexDigit hc, hexValue?_of_isHexDigit hd]
  rcases pieces? s with _ | ⟨ps, rest⟩ <;> rfl

theorem pieces?_short {c e : Char} (he : (e, c) ∈ shortEscapes) (s : List Char) :
    pieces? ('\\' :: e :: s) = (pieces? s).map fun r => (.char c :: r.1, r.2) := by
  have hescaped : escaped? e = some c ∧ e ≠ 'u' := by
    revert he
    simp only [shortEscapes, List.mem_cons, Prod.mk.injEq, List.not_mem_nil, or_false]
    rintro (⟨rfl, rfl⟩ | ⟨rfl, rfl⟩ | ⟨rfl, rfl⟩ | ⟨rfl, rfl⟩ | ⟨rfl, rfl⟩ | ⟨rfl, rfl⟩ |
      ⟨rfl, rfl⟩ | ⟨rfl, rfl⟩) <;> decide
  obtain ⟨hsome, hne⟩ := hescaped
  rw [pieces?]
  · rw [hsome]
    rcases pieces? s with _ | ⟨ps, rest⟩ <;> rfl
  · intro a b c d rest heq
    exact absurd heq hne

/-- A character that needs no escape is one piece. -/
theorem pieces?_plain {c : Char} (hquote : c ≠ '"') (hslash : c ≠ '\\') (hcontrol : 0x20 ≤ c.toNat)
    (s : List Char) : pieces? (c :: s) = (pieces? s).map fun r => (.char c :: r.1, r.2) := by
  rw [pieces?, if_neg (Nat.not_lt.mpr hcontrol)]
  · rcases pieces? s with _ | ⟨ps, rest⟩ <;> rfl
  · exact hquote
  · intro a b c' d rest heq
    exact absurd heq hslash
  · intro e rest heq
    exact absurd heq hslash

/-- The number of a character is that of no half. -/
theorem not_half_of_toNat (c : Char) : isLead c.toNat = false ∧ isTrail c.toNat = false := by
  have hvalid := c.valid
  simp only [isLead, isTrail, Bool.and_eq_false_iff, decide_eq_false_iff_not, Char.toNat]
  simp only [UInt32.isValidChar, Nat.isValidChar] at hvalid
  omega

/-- A code that is no half of a pair is the character with this number. -/
theorem decode?_code {n : Nat} (hlead : isLead n = false) (htrail : isTrail n = false)
    (ps : List Piece) : decode? (.code n :: ps) = (decode? ps).map (Char.ofNat n :: ·) := by
  rw [decode?.eq_def]
  simp only [hlead, htrail, Bool.false_eq_true, if_false]

/-- Two codes that are halves of a pair are one character. -/
theorem decode?_halves {n m : Nat} (hlead : isLead n) (htrail : isTrail m) (ps : List Piece) :
    decode? (.code n :: .code m :: ps) = (decode? ps).map (joinHalves n m :: ·) := by
  rw [decode?.eq_def]
  simp only [hlead, htrail, if_true]

/-- What is spelled between quotes is read as it was. -/
theorem exists_pieces {cs s : List Char} (h : Spells cs s) (rest : List Char) :
    ∃ ps, pieces? (s ++ '"' :: rest) = some (ps, rest) ∧ decode? ps = some cs := by
  -- On the spelling, one case for each way to write a character.
  induction h with
  | nil => exact ⟨[], rfl, rfl⟩
  | @plain c cs s hquote hslash hcontrol _ ih =>
    obtain ⟨ps, hps, hcs⟩ := ih
    refine ⟨.char c :: ps, ?_, by rw [decode?, hcs]; rfl⟩
    rw [List.cons_append, pieces?_plain hquote hslash hcontrol, hps]
    rfl
  | @short c e cs s he _ ih =>
    obtain ⟨ps, hps, hcs⟩ := ih
    refine ⟨.char c :: ps, ?_, by rw [decode?, hcs]; rfl⟩
    rw [List.cons_append, List.cons_append, pieces?_short he, hps]
    rfl
  | @code c cs code s hcode _ ih =>
    obtain ⟨ps, hps, hcs⟩ := ih
    -- The character is no half of a pair, so its code stands for itself.
    obtain ⟨hlead, htrail⟩ := not_half_of_toNat c
    refine ⟨.code c.toNat :: ps, ?_, ?_⟩
    · rw [List.cons_append, List.cons_append, List.append_assoc, pieces?_code hcode, hps]
      rfl
    · rw [decode?_code hlead htrail, hcs, Char.ofNat_toNat]
      rfl
  | @halves c n m cs lead trail s hn hm hc hlead htrail _ ih =>
    obtain ⟨ps, hps, hcs⟩ := ih
    refine ⟨.code n :: .code m :: ps, ?_, ?_⟩
    · rw [List.cons_append, List.cons_append, List.append_assoc, pieces?_code hlead,
        List.cons_append, List.cons_append, List.append_assoc, pieces?_code htrail, hps]
      rfl
    · -- Two halves are joined when the codes are decoded, and give the character back.
      have hjoin : joinHalves n m = c := by rw [joinHalves, ← hc, Char.ofNat_toNat]
      rw [decode?_halves hn hm, hcs, hjoin]
      rfl

/-- What spells a text is read as this text, up to the closing quote. -/
theorem string?_of_spells {cs s : List Char} (h : Spells cs s) (rest : List Char) :
    string? (s ++ '"' :: rest) = some (some (String.ofList cs), rest) := by
  obtain ⟨ps, hps, hcs⟩ := exists_pieces h rest
  simp only [string?, hps, Option.map_some, hcs]

/-! ## Numbers

  Only integers are written here. The digits are those of the number, and the reader turns them
  back into it. -/

/-- What follows does not belong to a number in front of it. -/
def Stops (s : List Char) : Prop :=
  ∀ c ∈ s.head?, isDigit c = false ∧ c ≠ '.' ∧ c ≠ 'e' ∧ c ≠ 'E'

theorem isDigit_of_mem_toDigits {n : Nat} {c : Char} (hc : c ∈ Nat.toDigits 10 n) :
    isDigit c = true := by
  have hdigit := Nat.isDigit_of_mem_toDigits (by decide) (by decide) hc
  simpa [isDigit, Char.isDigit, Char.le_def] using hdigit

/-- Digits are taken off up to the first character that is none. -/
theorem digits_append {ds rest : List Char} (hds : ∀ c ∈ ds, isDigit c = true)
    (hrest : Stops rest) : digits (ds ++ rest) = (ds.map digitValue, rest) := by
  have hstop : rest.takeWhile isDigit = [] ∧ rest.dropWhile isDigit = rest := by
    rcases rest with _ | ⟨c, rest⟩
    · exact ⟨rfl, rfl⟩
    · have hc := (hrest c rfl).1
      simp [hc]
  rw [digits, List.takeWhile_append_of_pos hds, List.dropWhile_append_of_pos hds, hstop.1, hstop.2,
    List.append_nil]

/-- The digits of a number are read as this number. -/
theorem ofDigits_toDigits (n : Nat) : ofDigits ((Nat.toDigits 10 n).map digitValue) = n := by
  have hten : Nat.ofDigitChars 10 (Nat.toDigits 10 n) 0 = n := Nat.ofDigitChars_ten_toDigits
  rw [Nat.ofDigitChars_eq_foldl] at hten
  simp only [Nat.mul_comm 10] at hten
  rw [ofDigits, List.foldl_map]
  exact hten

/-- A number other than zero is written without a zero in front. -/
theorem head?_toDigits {n : Nat} (hn : 0 < n) :
    ((Nat.toDigits 10 n).map digitValue).head? ≠ some 0 := by
  induction n using Nat.strongRecOn with
  | ind n ih =>
    -- A single digit is that of the number; of more digits the first is that of a tenth of it.
    by_cases hlt : n < 10
    · have hall : ∀ n < 10, 0 < n → digitValue n.digitChar ≠ 0 := by decide
      rw [Nat.toDigits_of_lt_base hlt]
      simpa using hall n hlt hn
    · have hmore := ih (n / 10) (by omega) (by omega)
      rw [Nat.toDigits_of_base_le (by decide) (by omega), List.map_append]
      rcases hchars : Nat.toDigits 10 (n / 10) with _ | ⟨c, cs⟩
      · exact absurd hchars Nat.toDigits_ne_nil
      · rw [hchars] at hmore
        exact hmore

/-- A whole number is read back, if what follows is no part of a number. -/
theorem number?_toDigits (negative : Bool) (n : Nat) {rest : List Char} (hrest : Stops rest) :
    number? negative (Nat.toDigits 10 n ++ rest) =
      some (numberValue negative ((Nat.toDigits 10 n).map digitValue) none none, rest) := by
  have hdigits : digits (Nat.toDigits 10 n ++ rest) = ((Nat.toDigits 10 n).map digitValue, rest) :=
    digits_append (fun _ => isDigit_of_mem_toDigits) hrest
  -- Numbers that are printed have a digit, and more than one only if the first is not 0.
  have hwhole : ¬(((Nat.toDigits 10 n).map digitValue).isEmpty ∨
      ((Nat.toDigits 10 n).map digitValue).head? = some 0 ∧
        1 < ((Nat.toDigits 10 n).map digitValue).length) := by
    rintro (hempty | ⟨hzero, hlong⟩)
    · simp [Nat.toDigits_ne_nil] at hempty
    · rcases Nat.eq_zero_or_pos n with rfl | hn
      · simp [Nat.toDigits_zero] at hlong
      · exact head?_toDigits hn hzero
  -- What follows begins neither a fraction nor an exponent.
  have hfraction : fraction? rest = some (none, rest) := by
    rw [fraction?]
    rintro s rfl
    exact (hrest _ rfl).2.1 rfl
  have hexponent : exponent? rest = some (none, rest) := by
    rcases rest with _ | ⟨c, rest⟩
    · rfl
    · obtain ⟨-, -, he, hE⟩ := hrest c rfl
      rw [exponent?, if_neg (by simp [he, hE])]
  simp only [number?, hdigits, if_neg hwhole, hfraction, Option.bind_eq_bind, Option.bind_some,
    hexponent]
  rfl

/-- A token that begins with a digit is a number. -/
theorem token?_of_isDigit {c : Char} (hc : isDigit c = true) (rest : List Char) :
    token? (c :: rest) = (number? false (c :: rest)).map fun r => (.scalar r.1, r.2) := by
  rw [token?, if_pos hc]
  -- no other token begins with a digit
  all_goals
    intros
    subst_vars
    exact absurd hc (by decide)

/-- The token of an integer of 64 bits, signed or not. -/
theorem token?_intChars {n : Int} (hlow : -(intBound : Int) ≤ n) (hhigh : n ≤ maxWord)
    {rest : List Char} (hrest : Stops rest) :
    token? (intChars n ++ rest) = some (.scalar (.int n), rest) := by
  have hdigits := ofDigits_toDigits n.natAbs
  -- The sign is read by the lexer and not by the number, so it is split off first.
  by_cases hn : n < 0
  · have hvalue :
        numberValue true ((Nat.toDigits 10 n.natAbs).map digitValue) none none = .int n := by
      simp only [numberValue, hdigits, Option.isSome_none, Bool.or_self, Bool.false_eq_true,
        if_false, if_true]
      rw [if_pos (by omega)]
      congr
      omega
    rw [intChars, if_pos hn, List.cons_append, token?, number?_toDigits true _ hrest, hvalue]
    rfl
  · have hvalue :
        numberValue false ((Nat.toDigits 10 n.natAbs).map digitValue) none none = .int n := by
      simp only [numberValue, hdigits, Option.isSome_none, Bool.or_self, Bool.false_eq_true,
        if_false]
      rw [if_pos (by omega)]
      congr
      omega
    have hnumber := number?_toDigits false n.natAbs hrest
    rw [hvalue] at hnumber
    rw [intChars, if_neg hn]
    -- Without a sign the first character has to be a digit for the lexer to try a number.
    rcases hchars : Nat.toDigits 10 n.natAbs with _ | ⟨c, cs⟩
    · exact absurd hchars Nat.toDigits_ne_nil
    · rw [hchars, List.cons_append] at hnumber
      have hc : isDigit c = true :=
        isDigit_of_mem_toDigits (hchars ▸ List.mem_cons_self)
      rw [List.cons_append, token?_of_isDigit hc, hnumber]
      rfl

/-! ## Tokens

  The reader takes one token at a time and passes over blanks, so each lemma is about one token
  with any text behind it. -/

/-- No token begins with a blank. -/
theorem token?_of_isBlank {c : Char} (hc : isBlank c = true) (s : List Char) :
    token? (c :: s) = none := by
  simp only [isBlank, Bool.or_eq_true, beq_iff_eq] at hc
  rcases hc with ((rfl | rfl) | rfl) | rfl <;> simp [token?, isDigit]

/-- Blanks make no difference to the state. -/
theorem run_blanks {b : List Char} (hb : Blanks b) (st : State) (s : List Char) :
    run st (b ++ s) = run st s := by
  induction b with
  | nil => rfl
  | cons c b ih =>
    rw [List.cons_append, run, if_pos (hb c List.mem_cons_self)]
    exact ih fun c' hc' => hb c' (List.mem_cons_of_mem c hc')

theorem run_token {st st' : State} {s rest : List Char} {t : Token}
    (htoken : token? s = some (t, rest)) (hnext : st.next t = some st') :
    run st s = run st' rest := by
  rcases s with _ | ⟨c, s⟩
  · simp [token?] at htoken
  · -- The text has a token at its start, so it is not a blank that is passed over here.
    have hblank : ¬isBlank c = true := by
      intro hblank
      rw [token?_of_isBlank hblank] at htoken
      exact absurd htoken (by simp)
    rw [run, if_neg hblank]
    split
    · simp_all
    · rename_i t' rest' htoken'
      obtain ⟨rfl, rfl⟩ : t' = t ∧ rest' = rest := by simpa [htoken] using htoken'.symm
      rw [hnext]

theorem token?_string {t s : List Char} (h : Spells t s) (rest : List Char) :
    token? ('"' :: (s ++ '"' :: rest)) = some (.string (some (String.ofList t)), rest) := by
  simp only [token?, string?_of_spells h rest, Option.map_some]

theorem stops_nil : Stops [] := by
  simp [Stops]

/-- A number ends before punctuation. -/
theorem stops_cons {c : Char} (hc : c = ',' ∨ c = ']' ∨ c = '}') (s : List Char) :
    Stops (c :: s) := by
  simp only [Stops, List.head?_cons, Option.mem_some_iff, forall_eq']
  rcases hc with rfl | rfl | rfl <;> decide

/-- Blanks end a number, and what follows them does not matter to it. -/
theorem stops_blanks {b s : List Char} (hb : Blanks b) (hs : Stops s) : Stops (b ++ s) := by
  rcases b with _ | ⟨c, b⟩
  · exact hs
  · have hc := hb c List.mem_cons_self
    simp only [isBlank, Bool.or_eq_true, beq_iff_eq] at hc
    simp only [Stops, List.cons_append, List.head?_cons, Option.mem_some_iff, forall_eq']
    rcases hc with ((rfl | rfl) | rfl) | rfl <;> decide

/-! ## Values

  By mutual recursion over the text of a value. The stack is arbitrary and returns to what it was,
  with the value on top. -/

namespace State

/-- A value may come next, inside these frames.  What else may come next is the end of an array. -/
def Awaits (st : State) (opened : List Frame) : Prop :=
  ∀ t, t ≠ .closeArray → st.next t = valueToken opened t

/-- A name may come next, after the members `done` of an object. -/
def AwaitsName (st : State) (done : List (Option String × Json)) (opened : List Frame) : Prop :=
  ∀ k, st.next (.string k) = some (.colon done k opened)

/-- In each of the following states a value may come, and it is put into the frame on top. -/
theorem awaits_value (opened : List Frame) : (value opened).Awaits opened :=
  fun _ _ => rfl

theorem awaits_element (opened : List Frame) : (element opened).Awaits (.array [] :: opened) := by
  intro t ht
  cases t with
  | closeArray => exact absurd rfl ht
  | _ => rfl

theorem awaitsName_member (opened : List Frame) : (member opened).AwaitsName [] opened :=
  fun _ => rfl

theorem awaitsName_key (done : List (Option String × Json)) (opened : List Frame) :
    (key done opened).AwaitsName done opened :=
  fun _ => rfl

end State

/-- A closing bracket makes an array of the elements so far; they were kept last one first. -/
theorem run_closeArray (v : Json) (done : List Json) (opened : List Frame) (rest : List Char) :
    run (.after v (.array done :: opened)) (']' :: rest) =
      run (.after (.array (v :: done).reverse) opened) rest :=
  run_token (t := .closeArray) rfl rfl

/-- A closing brace makes an object of the members so far. -/
theorem run_closeObject (v : Json) (done : List (Option String × Json)) (k : Option String)
    (opened : List Frame) (rest : List Char) :
    run (.after v (.object done k :: opened)) ('}' :: rest) =
      run (.after (.object ((k, v) :: done).reverse) opened) rest :=
  run_token (t := .closeObject) rfl rfl

mutual

/-- The text of a value takes the reader behind the value. -/
theorem run_value {v : Json} {s : List Char} : ValueText v s → ∀ {st : State} {opened : List Frame}
    {rest : List Char}, st.Awaits opened → Stops rest →
      run st (s ++ rest) = run (.after v opened) rest
  -- A scalar is one token.
  | .null, st, opened, rest, hst, _ =>
    run_token (t := .scalar .null) rfl (hst _ nofun)
  | .boolTrue, st, opened, rest, hst, _ =>
    run_token (t := .scalar (.bool true)) rfl (hst _ nofun)
  | .boolFalse, st, opened, rest, hst, _ =>
    run_token (t := .scalar (.bool false)) rfl (hst _ nofun)
  | .int hlow hhigh, st, opened, rest, hst, hrest =>
    run_token (token?_intChars hlow hhigh hrest) (hst _ nofun)
  | .string h, st, opened, rest, hst, _ => by
    have htoken := token?_string h rest
    rw [String.ofList_toList] at htoken
    rw [List.cons_append, List.append_assoc]
    exact run_token htoken (hst _ nofun)
  -- An array and an object are a token, what is in them, and a token.
  | .noElements hb, st, opened, rest, hst, _ => by
    rw [List.cons_append, List.append_assoc, run_token (t := .openArray) rfl (hst _ nofun),
      run_blanks hb]
    exact run_token (t := .closeArray) rfl rfl
  | .array h, st, opened, rest, hst, _ => by
    rw [List.cons_append, List.append_assoc, run_token (t := .openArray) rfl (hst _ nofun)]
    exact run_elements h (State.awaits_element opened) rest
  | .noMembers hb, st, opened, rest, hst, _ => by
    rw [List.cons_append, List.append_assoc, run_token (t := .openObject) rfl (hst _ nofun),
      run_blanks hb]
    exact run_token (t := .closeObject) rfl rfl
  | .object h, st, opened, rest, hst, _ => by
    rw [List.cons_append, List.append_assoc, run_token (t := .openObject) rfl (hst _ nofun)]
    exact run_members h (State.awaitsName_member opened) rest

/-- Blanks around a value are skipped. -/
theorem run_element {v : Json} {s : List Char} : ElementText v s → ∀ {st : State}
    {opened : List Frame} {rest : List Char}, st.Awaits opened → Stops rest →
      run st (s ++ rest) = run (.after v opened) rest
  | .between hb h hb', st, opened, rest, hst, hrest => by
    rw [List.append_assoc, List.append_assoc, run_blanks hb,
      run_value h hst (stops_blanks hb' hrest), run_blanks hb']

/-- From the first element on, the elements are added to the open array one by one. -/
theorem run_elements {vs : List Json} {s : List Char} : ElementsText vs s → ∀ {st : State}
    {done : List Json} {opened : List Frame}, st.Awaits (.array done :: opened) →
      ∀ rest, run st (s ++ ']' :: rest) = run (.after (.array (done.reverse ++ vs)) opened) rest
  | .one h, st, done, opened, hst, rest => by
    rw [run_element h hst (stops_cons (by decide) rest),
      run_closeArray, List.reverse_cons]
  | .more h hmore, st, done, opened, hst, rest => by
    rw [List.append_assoc, List.cons_append, run_element h hst (stops_cons (by decide) _),
      run_token (t := .comma) rfl rfl, run_elements hmore (State.awaits_value _) rest,
      List.reverse_cons, List.append_assoc, List.singleton_append]

/-- A member is a name, a colon and a value; the value is left to be put under the name. -/
theorem run_member {m : Option String × Json} {s : List Char} : MemberText m s → ∀ {st : State}
    {done : List (Option String × Json)} {opened : List Frame} {rest : List Char},
      st.AwaitsName done opened → Stops rest →
      run st (s ++ rest) = run (.after m.2 (.object done m.1 :: opened)) rest
  | @MemberText.pair k v b s b' t hb hk hb' h, st, done, opened, rest, hst, hrest => by
    have htoken := token?_string hk (b' ++ ':' :: (t ++ rest))
    rw [String.ofList_toList] at htoken
    simp only [List.append_assoc, List.cons_append]
    rw [run_blanks hb, run_token htoken (hst _), run_blanks hb', run_token (t := .colon) rfl rfl,
      run_element h (State.awaits_value _) hrest]

/-- From the first member on, the members are added to the open object one by one. -/
theorem run_members {ms : List (Option String × Json)} {s : List Char} : MembersText ms s →
    ∀ {st : State} {done : List (Option String × Json)} {opened : List Frame},
      st.AwaitsName done opened →
      ∀ rest, run st (s ++ '}' :: rest) = run (.after (.object (done.reverse ++ ms)) opened) rest
  | .one h, st, done, opened, hst, rest => by
    rw [run_member h hst (stops_cons (by decide) rest),
      run_closeObject, List.reverse_cons]
  | .more h hmore, st, done, opened, hst, rest => by
    rw [List.append_assoc, List.cons_append, run_member h hst (stops_cons (by decide) _),
      run_token (t := .comma) rfl rfl, run_members hmore (State.awaitsName_key _ opened) rest,
      List.reverse_cons, List.append_assoc, List.singleton_append]

end

/-- **Reading finds the value that a text writes.** -/
theorem parse?_of_hasText {v : Json} {s : String} (h : v.HasText s) : parse? s = some v := by
  have hrun := run_element h (State.awaits_value []) stops_nil
  rw [List.append_nil] at hrun
  rw [parse?, hrun, run]
  rfl

/-- What is printed is read back. -/
theorem parse?_render {v : Json} (hv : v.isPlain) : parse? v.render = some v :=
  parse?_of_hasText (hasText_render hv)

/-- **Values are the same exactly if their texts are.** Reading takes the text back to the value. -/
theorem render_inj {v w : Json} (hv : v.isPlain) (hw : w.isPlain) : v.render = w.render ↔ v = w := by
  refine ⟨fun heq => ?_, congrArg render⟩
  have hread := parse?_render hv
  rw [heq, parse?_render hw] at hread
  exact (Option.some.inj hread).symm

end BoxRuntime.Json
