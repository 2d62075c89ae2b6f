/-
  Loggers.

  A logger passes each record that is grave enough to all of its sinks, in the order they were
  added.  A sink is a ring buffer, which is part of the logger's own state, or an outlet to the
  world.  What goes to outlets is noted in a journal, in order; writing it out is the business of
  whoever runs the program.

  Spans mark stretches of work.  Entering one gives a guard, giving up a guard closes the innermost
  span, and a record carries the number of the innermost open span.
-/
import BoxRuntime.FileTree
import BoxRuntime.Log.Ring

namespace BoxRuntime

/-- A destination outside the program. -/
inductive Outlet where
  | stdout
  | stderr
  | file (place : Place)
  /-- The command line's own log, which filters once more. -/
  | console
deriving DecidableEq

/-- A destination of records. -/
inductive Sink where
  | ring (ring : Ring)
  | outlet (outlet : Outlet)

/-- Something to be written outside the program. -/
inductive Delivery where
  /-- A record that passed the logger. -/
  | record (outlet : Outlet) (r : Record)
  /-- A message of the command line about itself, meant for its own log alone. -/
  | remark (level : Level) (message : String)
deriving DecidableEq

/-- A stretch of work with a name. -/
structure Span where
  id : Nat
  name : String
deriving DecidableEq

/-- What the one who entered a span holds until it is over. -/
structure SpanGuard where
  id : Nat
deriving DecidableEq

/-- A logger with its sinks. -/
structure Logger where
  level : Level
  sinks : List Sink := []
  /-- Open spans, the innermost first. -/
  spans : List Span := []
  nextSpan : Nat := 1
  /-- The time that new records get. -/
  now : Nat := 0
  journal : Array Delivery := #[]

namespace Logger

/-- A logger with no sinks, open to errors alone. -/
def silent : Logger :=
  { level := .error }

def setLevel (l : Logger) (level : Level) : Logger :=
  { l with level }

def isEnabled (l : Logger) (level : Level) : Bool :=
  level.atLeast l.level

def addSink (l : Logger) (sink : Sink) : Logger :=
  { l with sinks := l.sinks ++ [sink] }

/-! ## Spans -/

def enterSpan (l : Logger) (name : String) : SpanGuard × Logger :=
  ({ id := l.nextSpan },
    { l with spans := { id := l.nextSpan, name } :: l.spans, nextSpan := l.nextSpan + 1 })

/-- Gives up a guard.  The innermost span is closed, whichever guard it was. -/
def exitSpan (l : Logger) (_ : SpanGuard) : Logger :=
  { l with spans := l.spans.tail }

def spanDepth (l : Logger) : Nat :=
  l.spans.length

/-- The name of the innermost open span. -/
def currentSpan (l : Logger) : Option String :=
  l.spans.head?.map Span.name

/-! ## Records -/

/-- The effect of a record on a sink that is a ring buffer. -/
def Sink.write (r : Record) : Sink → Sink
  | .ring ring => .ring (ring.push r)
  | .outlet o => .outlet o

/-- The outlets among the sinks. -/
def outlets (l : Logger) : List Outlet :=
  l.sinks.filterMap fun
    | .ring _ => none
    | .outlet o => some o

/-- Passes a record to every sink. -/
def write (l : Logger) (r : Record) : Logger :=
  { l with
    sinks := l.sinks.map (Sink.write r)
    journal := l.journal ++ (l.outlets.map fun o => Delivery.record o r).toArray }

/-- The record a message makes now. -/
def recordOf (l : Logger) (level : Level) (target message : String) : Record :=
  { time := l.now, level, target, message, span := l.spans.head?.map Span.id }

/-- Logs a message, if the logger takes its level. -/
def log (l : Logger) (level : Level) (target message : String) : Logger :=
  if l.isEnabled level then l.write (l.recordOf level target message) else l

/-- Notes a message of the command line about itself. -/
def remark (l : Logger) (level : Level) (message : String) : Logger :=
  { l with journal := l.journal.push (.remark level message) }

/-! ## Ring buffers among the sinks -/

/-- The ring buffer at a position among the sinks. -/
def ring? (l : Logger) (position : Nat) : Option Ring :=
  match l.sinks[position]? with
  | some (.ring ring) => some ring
  | _ => none

/-- Changes the ring buffer at a position among the sinks. -/
def updateRing (l : Logger) (position : Nat) (f : Ring → Ring) : Logger :=
  { l with
    sinks := l.sinks.modify position fun
      | .ring ring => .ring (f ring)
      | sink => sink }

end Logger

end BoxRuntime
