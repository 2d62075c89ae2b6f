/-
  The command line's log.

  Whatever the machine's logger delivers to the console, and whatever the command line says about
  itself, passes the filter and becomes a line: level, target, message and, for records of the
  machine, the span.  Characters that would act on a terminal are spelled out.
-/
import BoxRuntime.Cli.Arguments
import BoxRuntime.Cli.Filter
import BoxRuntime.Json.Basic
import BoxRuntime.Log.Logger
import BoxRuntime.Program.Setup
import BoxRuntime.Text.Quoted

namespace BoxRuntime.Cli

/-- Something to write to the log. -/
structure LogEvent where
  level : Verbosity
  target : String
  message : String
  /-- For records of the machine, their span, if any. -/
  span : Option (Option Nat)
deriving DecidableEq

/-- The target under which a record of the machine is filtered. -/
def forwardedTarget (target : String) : String :=
  ((Component.ofTarget? target).getD .runtime).target

/-- What a delivery brings to the console. -/
def LogEvent.ofDelivery? : Delivery → Option LogEvent
  | .record .console r =>
    some
      { level := .ofRecord r.level
        target := forwardedTarget r.target
        message := r.message
        span := some r.span }
  | .record _ _ => none
  | .remark level message =>
    some { level := .ofRecord level, target := ownTarget, message, span := none }

/-- The events that a filter lets through. -/
def events (f : Filter) (journal : Array Delivery) : List LogEvent :=
  (journal.toList.filterMap LogEvent.ofDelivery?).filter fun e => f.enabled e.target e.level

/-- A character as log lines show it. -/
def safeChar (c : Char) : String :=
  if c = '\x1b' then "\\x1b"
  else if c = '\x07' then "\\x07"
  else if c = '\x08' then "\\x08"
  else if c = '\x0c' then "\\x0c"
  else if c = '\x7f' then "\\x7f"
  else if 0x80 ≤ c.toNat ∧ c.toNat ≤ 0x9f then "\\u\x7b" ++ Text.hex c.toNat ++ "\x7d"
  else c.toString

/-- A message without the characters that would act on a terminal. -/
def safeText (s : String) : String :=
  String.join (s.toList.map safeChar)

/-- The span of a record as the log shows it. -/
def spanText (span : Option Nat) : String :=
  ProgramSetup.optionText (fun n => toString n) span

namespace LogEvent

/-- The event as a line of text. -/
def line (e : LogEvent) : String :=
  let level := String.ofList (e.level.name.toList.leftpad 5 ' ')
  let span :=
    match e.span with
    | some span => s!" span={spanText span}"
    | none => ""
  s!"{level} {e.target}: {safeText e.message}{span}"

/-- The event as a JSON object. -/
def toJson (e : LogEvent) : Json :=
  let span :=
    match e.span with
    | some span => [("span", Json.text (spanText span))]
    | none => []
  .ofMembers
    [("level", .text e.level.name), ("fields", .ofMembers (("message", .text e.message) :: span)),
      ("target", .text e.target)]

/-- The event in a given format. -/
def render (format : LogFormat) (e : LogEvent) : String :=
  match format with
  | .json => e.toJson.render
  | .pretty | .compact => e.line

end LogEvent

/-- Lines of text, each with a line break. -/
def unlines (lines : List String) : String :=
  String.join (lines.map (· ++ "\n"))

end BoxRuntime.Cli
