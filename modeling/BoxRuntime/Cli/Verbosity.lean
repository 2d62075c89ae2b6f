/-
  Levels on the command line.

  The command line has levels of its own, ordered by how much they let through: the least is errors
  alone, the greatest is everything.  That is the other way round than the levels of the machine's
  logger, which are ordered by gravity.

  A level is given by its name in letters of any case, or by a digit: one for errors alone, five
  for everything.  An override sets the level of one component.
-/
import BoxRuntime.Config
import BoxRuntime.Log.Level
import BoxRuntime.Text.Blank

namespace BoxRuntime.Cli

/-- How much is let through: the least is errors alone, the greatest is everything. -/
inductive Verbosity where
  | error
  | warn
  | info
  | debug
  | trace
deriving DecidableEq

namespace Verbosity

/-- The place in the order. -/
def rank : Verbosity → Nat
  | error => 0
  | warn => 1
  | info => 2
  | debug => 3
  | trace => 4

/-- `a` lets through no more than `b`. -/
def atMost (a b : Verbosity) : Bool :=
  a.rank ≤ b.rank

/-- The greater of two levels. -/
def max (a b : Verbosity) : Verbosity :=
  if a.atMost b then b else a

/-- The level's name in log text. -/
def name : Verbosity → String
  | error => "ERROR"
  | warn => "WARN"
  | info => "INFO"
  | debug => "DEBUG"
  | trace => "TRACE"

/-- The level to set the machine's logger to. -/
def loggerLevel : Verbosity → Level
  | error => .error
  | warn => .warn
  | info => .info
  | debug => .debug
  | trace => .trace

/-- The level at which the command line passes on a record of the machine's logger. -/
def ofRecord : Level → Verbosity
  | .error => error
  | .warn => warn
  | .info => info
  | .debug => debug
  | .trace => trace

end Verbosity

/-- The number that some decimal digits write; there must be one at least. -/
def digits? (s : List Char) : Option Nat :=
  if s.isEmpty then none
  else
    s.foldl
      (fun n c =>
        n.bind fun n =>
          if '0' ≤ c ∧ c ≤ '9' then some (n * 10 + (c.toNat - '0'.toNat)) else none)
      (some 0)

/-- An unsigned 64-bit number in decimal notation, with or without a plus sign. -/
def word? (s : String) : Option Nat :=
  let n :=
    match s.toList with
    | '+' :: ds => digits? ds
    | ds => digits? ds
  n.bind fun n => if n < UInt64.size then some n else none

/-- The level that a number stands for. -/
def levelOfNumber? : Nat → Option Verbosity
  | 1 => some .error
  | 2 => some .warn
  | 3 => some .info
  | 4 => some .debug
  | 5 => some .trace
  | _ => none

/-- The level that a word in lower case stands for. -/
def levelOfWord? : String → Option Verbosity
  | "silent" | "error" => some .error
  | "warn" => some .warn
  | "info" => some .info
  | "debug" => some .debug
  | "trace" => some .trace
  | _ => none

/-- Reads a level, or says what is wrong. -/
def parseLevel (s : String) : Except String Verbosity :=
  match levelOfWord? s.toLower, (word? s).bind levelOfNumber? with
  | some l, _ => .ok l
  | none, some l => .ok l
  | none, none => .error s!"unknown log level '{s}'"

/-- The parts of a text before and after the first equals sign. -/
def splitAtEquals (s : String) : Option (String × String) :=
  match s.toList.span (· != '=') with
  | (name, _ :: value) => some (String.ofList name, String.ofList value)
  | (_, []) => none

/-- Reads a component and its level, or says what is wrong. -/
def parseOverride (s : String) : Except String (Component × Verbosity) :=
  match splitAtEquals s with
  | none => .error s!"expected COMPONENT=LEVEL, got '{s}'"
  | some (name, level) =>
    match Component.ofName? (Text.trim name) with
    | none => .error s!"unknown component '{name}'"
    | some c => (parseLevel (Text.trim level)).map fun l => (c, l)

end BoxRuntime.Cli
