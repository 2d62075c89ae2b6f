/-
  Configuration of a runtime, and the components it is made of.

  A configuration says what the runtime logs besides the usual and how large lists are made.  Log
  records name the component they come from by its target.
-/

namespace BoxRuntime

/-- What is logged for diagnosis. -/
structure DebugSwitches where
  /-- Log every box that a release frees. -/
  traceBoxes : Bool := false
  /-- Log every split of a chunk in a set or map. -/
  traceSplits : Bool := false
deriving DecidableEq

namespace DebugSwitches

def all : DebugSwitches :=
  { traceBoxes := true, traceSplits := true }

/-- Some switch is on. -/
def any (s : DebugSwitches) : Bool :=
  s.traceBoxes || s.traceSplits

end DebugSwitches

/-- Defaults for lists. -/
structure ListDefaults where
  /-- The size hint of a list that is made without one. -/
  defaultSizeHint : Nat := 0
deriving DecidableEq

/-- The configuration of a runtime. -/
structure RuntimeConfig where
  debug : DebugSwitches := {}
  list : ListDefaults := {}
deriving DecidableEq

/-- The part of the runtime a log record comes from. -/
inductive Component where
  | box
  | list
  | tree
  | init
  | runtime
deriving DecidableEq

namespace Component

/-- Every component once, in the order log filters list them. -/
def all : List Component :=
  [box, list, tree, init, runtime]

def name : Component → String
  | box => "box"
  | list => "list"
  | tree => "tree"
  | init => "init"
  | runtime => "runtime"

/-- The component with a given name, if there is one. -/
def ofName? (s : String) : Option Component :=
  all.find? fun c => c.name == s

/-- The target of the component's log records. -/
def target : Component → String
  | box => "wyrt::box"
  | list => "wyrt::list"
  | tree => "wyrt::tree"
  | init => "wyrt::init"
  | runtime => "wyrt::runtime"

/-- The component whose records have a given target, if there is one. -/
def ofTarget? (s : String) : Option Component :=
  all.find? fun c => c.target == s

/-- The component's place in `all`. -/
def position : Component → Nat
  | box => 0
  | list => 1
  | tree => 2
  | init => 3
  | runtime => 4

/-- The position of a component is its place among all. -/
theorem getElem?_position (c : Component) : all[c.position]? = some c := by
  cases c <;> rfl

end Component

end BoxRuntime
