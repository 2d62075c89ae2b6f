/-
  Setting up a logger.

  A setup names a level and the outputs wanted.  `init` builds the logger with one sink for each
  output, in order; a file that cannot be opened is left out.  Which files can be opened is for the
  system to say: it gives the place of each of them (`places`), and no place for any other path.
-/
import BoxRuntime.FileTree
import BoxRuntime.Log.Logger

namespace BoxRuntime

/-- An output of the log. -/
inductive LogOutput where
  | stdout
  | stderr
  | file (path : String)
  | ring (capacity : RingSize)
deriving DecidableEq

/-- A level and the outputs, in the order they are to be written to. -/
structure LogSetup where
  level : Level
  outputs : List LogOutput := []

namespace LogSetup

/-- For development: everything, to the error stream and to a large ring buffer. -/
def dev : LogSetup :=
  { level := .trace, outputs := [.stderr, .ring ⟨10000, by decide⟩] }

/-- For production: the last errors alone, kept in a ring buffer. -/
def quiet : LogSetup :=
  { level := .error, outputs := [.ring ⟨256, by decide⟩] }

/-- Adds an output at the end, unless it is there. -/
def withOnce (s : LogSetup) (o : LogOutput) : LogSetup :=
  if s.outputs.contains o then s else { s with outputs := s.outputs ++ [o] }

/-- Adds an output at the end.  The two standard streams are taken once only. -/
def withOutput (s : LogSetup) : LogOutput → LogSetup
  | .stdout => s.withOnce .stdout
  | .stderr => s.withOnce .stderr
  | o => { s with outputs := s.outputs ++ [o] }

/-- The sink for an output, if it can be opened. -/
def sink? (places : String → Option Place) : LogOutput → Option Sink
  | .stdout => some (.outlet .stdout)
  | .stderr => some (.outlet .stderr)
  | .file path => (places path).map fun place => .outlet (.file place)
  | .ring capacity => some (.ring (.empty capacity))

/-- The position of the last ring buffer among some sinks. -/
def lastRing? (sinks : List Sink) : Option Nat :=
  sinks.zipIdx.foldl
    (fun last p =>
      match p.1 with
      | .ring _ => some p.2
      | .outlet _ => last)
    none

/-- Builds the logger, and says where among its sinks the last ring buffer is. -/
def init (s : LogSetup) (places : String → Option Place) : Logger × Option Nat :=
  let sinks := s.outputs.filterMap (sink? places)
  ({ level := s.level, sinks }, lastRing? sinks)

/-- What a logger has delivered to the file at a place, a line for each record. -/
def delivered (l : Logger) (place : Place) : String :=
  String.join
    (l.journal.toList.filterMap fun
      | .record o r => if o = .file place then some (r.format ++ "\n") else none
      | .remark .. => none)

/-- The text of a log file in a tree of files, if there is such a file once a logger has written to
it. -/
def fileText? (tree : FileTree) (l : Logger) (path : String) : Option String :=
  match tree.openToAdd path with
  | .error _ => none
  | .ok (place, tree) =>
    ((tree.add place (delivered l place)).content? place).bind String.fromUTF8?

end LogSetup

end BoxRuntime
