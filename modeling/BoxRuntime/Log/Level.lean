/-
  Log levels.

  Five levels, from the most talkative to the gravest.  A logger set to a level takes records of
  that level and of all graver ones.
-/

namespace BoxRuntime

/-- The weight of a log record. -/
inductive Level where
  | trace
  | debug
  | info
  | warn
  | error
deriving DecidableEq, Inhabited

namespace Level

/-- Every level once, the most talkative first. -/
def all : List Level :=
  [trace, debug, info, warn, error]

/-- The level's number; a graver level has a larger one. -/
def code : Level → Nat
  | trace => 0
  | debug => 1
  | info => 2
  | warn => 3
  | error => 4

/-- The level with a given number, if there is one. -/
def ofCode? (n : Nat) : Option Level :=
  all.find? fun l => l.code == n

/-- The level's name in log text. -/
def name : Level → String
  | trace => "TRACE"
  | debug => "DEBUG"
  | info => "INFO"
  | warn => "WARN"
  | error => "ERROR"

/-- `a` is at least as grave as `b`. -/
def atLeast (a b : Level) : Bool :=
  b.code ≤ a.code

/-- Reads a level in lower-case letters.  Silence still lets errors through. -/
def ofLowerName? : String → Option Level
  | "trace" => some trace
  | "debug" => some debug
  | "info" => some info
  | "warn" | "warning" => some warn
  | "error" | "silent" => some error
  | _ => none

/-- Reads a level whatever the case of its (ASCII) letters. -/
def parse? (s : String) : Option Level :=
  ofLowerName? s.toLower

/-- Reads a level, or says which text is none. -/
def parse (s : String) : Except String Level :=
  match parse? s with
  | some l => .ok l
  | none => .error s!"Unknown log level: {s}"

/-- Every level is read back from its number. -/
theorem ofCode?_code (l : Level) : ofCode? l.code = some l := by
  cases l <;> decide

end Level

end BoxRuntime
