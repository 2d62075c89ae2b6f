/-
  The log filter of the command line.

  The filter has a global level, and levels of single components that take its place.  It judges a
  record by its target: the longest of the known targets that the record's target begins with says
  which level is in force.

  The machine's logger is set to the most talkative of all these levels, so that it never holds
  back a record that the filter would let through.
-/
import BoxRuntime.Cli.Verbosity

namespace BoxRuntime.Cli

/-- The target of what the command line says about itself. -/
def ownTarget : String :=
  "wyrt::cli"

/-- Levels by component. -/
structure Filter where
  global : Verbosity := .warn
  components : List (Component × Verbosity) := []
deriving DecidableEq

namespace Filter

/-- The level set for a component, if there is one. -/
def override? (f : Filter) (c : Component) : Option Verbosity :=
  f.components.lookup c

/-- Sets the level of a component. -/
def set (f : Filter) (c : Component) (l : Verbosity) : Filter :=
  { f with components := (c, l) :: f.components.filter fun p => p.1 != c }

/-- Sets the level of a component that has none of its own. -/
def setIfUnset (f : Filter) (c : Component) (l : Verbosity) : Filter :=
  if (f.override? c).isSome then f else f.set c l

/-- For debugging: everything about boxes, and the splits of chunks. -/
def withDebugDefaults (f : Filter) : Filter :=
  (f.setIfUnset .box .trace).setIfUnset .tree .debug

/-- The level in force for a component. -/
def levelFor (f : Filter) (c : Component) : Verbosity :=
  (f.override? c).getD f.global

/-- The most talkative of all levels. -/
def mostVerbose (f : Filter) : Verbosity :=
  f.components.foldl (fun l p => l.max p.2) f.global

/-- The known targets and the levels in force for them. -/
def directives (f : Filter) : List (String × Verbosity) :=
  Component.all.map (fun c => (c.target, f.levelFor c)) ++ [(ownTarget, f.global)]

/-- Whether a text begins with another. -/
def beginsWith (s start : String) : Bool :=
  start.toList.isPrefixOf s.toList

/-- The longer target, with its level. -/
def longer (best : Option (String × Verbosity)) (d : String × Verbosity) :
    Option (String × Verbosity) :=
  match best with
  | some b => if b.1.length < d.1.length then some d else some b
  | none => some d

/-- The level in force for a target. -/
def levelAt (f : Filter) (target : String) : Verbosity :=
  match (f.directives.filter fun d => beginsWith target d.1).foldl longer none with
  | some d => d.2
  | none => f.global

/-- Whether records of a target and level are let through. -/
def enabled (f : Filter) (target : String) (l : Verbosity) : Bool :=
  l.atMost (f.levelAt target)

end Filter

end BoxRuntime.Cli
