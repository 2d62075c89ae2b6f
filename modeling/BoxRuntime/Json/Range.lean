/-
  The range of numbers.

  A number that is no 64-bit integer is read as a double.  Of its digits as many count as fit an
  unsigned 64-bit word; these and the power of ten are each rounded to a double, and the number is
  out of range when their product rounds to infinity.
-/

namespace BoxRuntime.Json

/-- The largest unsigned 64-bit integer. -/
def maxWord : Nat :=
  UInt64.size - 1

/-- Signed 64-bit integers are below this number and not below its negative. -/
def intBound : Nat :=
  Int64.size / 2

/-- The nearest number with at most 53 binary digits; a tie goes to the even one. -/
def roundToDouble (n : Nat) : Nat :=
  let extra := n.log2 + 1 - 53
  let unit := 1 <<< extra
  let low := n % unit
  let high := n / unit
  if unit < 2 * low ∨ (unit = 2 * low ∧ high % 2 = 1) then (high + 1) * unit else high * unit

/-- The least number that rounds to infinity: the largest double and half a unit more. -/
def overflowBound : Nat :=
  1 <<< 1024 - 1 <<< 970

/-- The largest power of ten that is a double. -/
def maxPower : Int :=
  308

/-- Whether `significand · 10 ^ exponent` is a finite double. -/
def inRange (significand : Nat) (exponent : Int) : Bool :=
  if significand = 0 ∨ exponent < 0 then true
  else if maxPower < exponent then false
  else roundToDouble significand * roundToDouble (Nat.pow 10 exponent.toNat) < overflowBound

example : inRange 1 308 ∧ ¬ inRange 1 309 ∧ ¬ inRange 2 308 ∧ inRange 0 400 := by decide +kernel

/-- Appends digits to a significand while the result fits a word; also returns how many digits were
left over. -/
def appendDigits (significand : Nat) : List Nat → Nat × Nat
  | [] => (significand, 0)
  | d :: ds =>
    if significand * 10 + d ≤ maxWord then appendDigits (significand * 10 + d) ds
    else (significand, ds.length + 1)

/-- The significand and the power of ten that count of a number: `whole` and `fraction` are the
digits before and after the point. -/
def significant (whole fraction : List Nat) (exponent : Int) : Nat × Int :=
  let (significand, cut) := appendDigits 0 whole
  let (significand, unread) := appendDigits significand fraction
  (significand, exponent + cut - (fraction.length - unread : Nat))

end BoxRuntime.Json
