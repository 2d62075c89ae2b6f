/-
  Configurations, tags and components as JSON.

  A configuration is an object with the members `debug` and `list`.  Whatever is left out has its
  default, so a text needs to say only what differs; but what is there must be of the right type,
  and null is not.
-/
import BoxRuntime.Config
import BoxRuntime.Json.Decode
import BoxRuntime.Json.Parser
import BoxRuntime.Tag

namespace BoxRuntime

namespace DebugSwitches

def toJson (s : DebugSwitches) : Json :=
  .ofMembers [("trace_boxes", .bool s.traceBoxes), ("trace_splits", .bool s.traceSplits)]

def ofJson? (v : Json) : Option DebugSwitches := do
  match ← v.fields? ["trace_boxes", "trace_splits"] with
  | [boxes, splits] =>
    return { traceBoxes := ← Json.defaulted false Json.bool? boxes
             traceSplits := ← Json.defaulted false Json.bool? splits }
  | _ => none

end DebugSwitches

namespace ListDefaults

def toJson (l : ListDefaults) : Json :=
  .ofMembers [("default_size_hint", .int l.defaultSizeHint)]

def ofJson? (v : Json) : Option ListDefaults := do
  match ← v.fields? ["default_size_hint"] with
  | [hint] => return { defaultSizeHint := ← Json.defaulted 0 Json.nat? hint }
  | _ => none

end ListDefaults

namespace RuntimeConfig

def toJson (c : RuntimeConfig) : Json :=
  .ofMembers [("debug", c.debug.toJson), ("list", c.list.toJson)]

def ofJson? (v : Json) : Option RuntimeConfig := do
  match ← v.fields? ["debug", "list"] with
  | [debug, list] =>
    return { debug := ← Json.defaulted {} DebugSwitches.ofJson? debug
             list := ← Json.defaulted {} ListDefaults.ofJson? list }
  | _ => none

/-- The configuration that a text describes. -/
def parse? (s : String) : Option RuntimeConfig := do
  ofJson? (← Json.parse? s)

end RuntimeConfig

namespace Tag

def toJson (t : Tag) : Json :=
  .text t.name

/-- The tag that a text names. -/
def parse? (s : String) : Option Tag := do
  (← Json.parse? s).choice? false ofName?

end Tag

namespace Component

def toJson (c : Component) : Json :=
  .text c.name

/-- The component that a text names. -/
def parse? (s : String) : Option Component := do
  (← Json.parse? s).choice? false ofName?

end Component

end BoxRuntime
