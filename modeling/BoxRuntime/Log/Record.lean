/-
  Log records.

  A record is one message with its level, the target it is about, the time of day and, inside a
  span, the number of that span.  `Record.format` writes it as a line of text.
-/
import BoxRuntime.Log.Level

namespace BoxRuntime

/-- A message in the log. -/
structure Record where
  /-- Milliseconds since the start of some day. -/
  time : Nat
  level : Level
  /-- What part of the program the message is about. -/
  target : String
  message : String
  /-- The span that was innermost when the message was logged. -/
  span : Option Nat
deriving DecidableEq

/-- A number with zeros in front, to a given width at least. -/
def padNat (width n : Nat) : String :=
  String.ofList ((toString n).toList.leftpad width '0')

/-- A time in milliseconds as `HH:MM:SS.mmm`.  Whole days are left out. -/
def clockText (time : Nat) : String :=
  let seconds := time / 1000
  s!"{padNat 2 (seconds / 3600 % 24)}:{padNat 2 (seconds / 60 % 60)}:{padNat 2 (seconds % 60)}"
    ++ s!".{padNat 3 (time % 1000)}"

example : clockText 86399999 = "23:59:59.999" := by decide +kernel

namespace Record

/-- The same record, in a given span. -/
def withSpan (r : Record) (span : Nat) : Record :=
  { r with span := some span }

/-- The record as text: time, level, target, span if any, message. -/
def format (r : Record) : String :=
  let span :=
    match r.span with
    | some n => s!" [span={n}]"
    | none => ""
  s!"[{clockText r.time}] {r.level.name} {r.target}{span}: {r.message}"

end Record

end BoxRuntime
