/-
  Running commands.

  A session is a machine with the handles kept for it, by name, and the boxes watched without a
  handle.  A command that needs values makes them first, from left to right, then looks up its
  container, then works, and at the end gives the values up again, whatever happened in between.
-/
import BoxRuntime.Session.Command

namespace BoxRuntime

/-- A machine and the names under which its handles are kept. -/
structure Session where
  machine : Machine
  names : Names := {}
  /-- Boxes that are watched; these entries do not count as handles. -/
  watched : Names := {}

/-- A step of a session: it changes the session and gives a result, or is refused. -/
abbrev Act (α : Type) := EStateM Refusal Session α

namespace Session

/-- An operation on the session's machine. -/
def on {α : Type} (op : Op α) : Act α := fun ⟨machine, names, watched⟩ =>
  match op machine with
  | .ok a machine => .ok a { machine, names, watched }
  | .error f machine => .error (.fault f) { machine, names, watched }

/-! ## Names -/

/-- The handle kept under a name. -/
def lookup (name : String) : Act Handle := do
  match (← get).names.get? name with
  | some v => return v
  | none => throw (.unbound name)

/-- The box watched under a name. -/
def lookupWatched (name : String) : Act Handle := do
  match (← get).watched.get? name with
  | some v => return v
  | none => throw (.unbound name)

/-- Removes a name and returns the handle it had. -/
def take (name : String) : Act Handle := do
  let v ← lookup name
  modify fun s => { s with names := s.names.erase name }
  return v

/-- Keeps a handle under a name, and gives up the one that was there. -/
def bind (name : String) (v : Handle) : Act Unit := do
  let old := (← get).names.get? name
  modify fun s => { s with names := s.names.put name v }
  match old with
  | some old => on (Machine.drop old)
  | none => pure ()

/-- Keeps a handle under a name, or gives it up if there is no name. -/
def bindOrDrop (name : Option String) (v : Handle) : Act Unit :=
  match name with
  | some name => bind name v
  | none => on (Machine.drop v)

/-! ## Values -/

/-- Makes the handle that a source stands for. -/
def handleOf : Source → Act Handle
  | .int n => on (Machine.boxInt n)
  | .text s => on (Machine.boxString s)
  | .empty tag => on (do Machine.emptyBox (← Machine.require tag.resolve))
  | .var name => do
    let v ← lookup name
    on (Machine.retain v)
    return v

/-- Works with the handle that a source stands for, and gives it up afterwards. -/
def holding {α : Type} (value : Source) (work : Handle → Act α) : Act α := do
  let v ← handleOf value
  try work v finally on (Machine.drop v)

/-! ## Descriptions -/

/-- A handle with the present number of handles. -/
def describe (v : Handle) : Act Description := do
  return { handle := v, count := ← on (Machine.count v) }

/-- What can be seen of a box. -/
def viewOf (v : Handle) : Act View := do
  match ← on (Machine.content? v) with
  | some (.list slots) => return .list slots.size slots.capacity slots.isEmpty
  | some (.set tree) =>
    return .tree tree.elementType tree.size tree.isEmpty tree.lastHint tree.stats
  | some (.map tree) =>
    return .tree tree.elementType tree.size tree.isEmpty tree.lastHint tree.stats
  | _ => return .plain v.string? v.int?

/-- Describes a new handle, then keeps it. -/
def keep (name : String) (v : Handle) : Act Answer := do
  let d ← describe v
  bind name v
  return .box d

/-- Describes a new handle, then keeps it or gives it up. -/
def keepOrDrop (name : Option String) (v : Handle) : Act Answer := do
  let d ← describe v
  bindOrDrop name v
  return .box d

/-- Adds the values of a series from position `i` on, `left` of them. -/
def addSeries (add : Nat → Act Unit) (i : Nat) : Nat → Act Unit
  | 0 => pure ()
  | left + 1 => do
    add i
    addSeries add (i + 1) left

/-! ## Commands -/

/-- Carries out one command. -/
def run : Command → Act Answer
  | .string name text => do keep name (← on (Machine.boxString text))
  | .int name n => do keep name (← on (Machine.boxInt n))
  | .empty name tag => do
    keep name (← on (do Machine.emptyBox (← Machine.require tag.resolve)))
  | .list name hint => do
    let hint := hint.getD (← get).machine.config.list.defaultSizeHint
    keep name (← on (Machine.newList hint))
  | .set name tag => do
    keep name (← on (do Machine.newSet (← Machine.require tag.resolve)))
  | .map name tag => do
    keep name (← on (do Machine.newMap (← Machine.require tag.resolve)))
  | .box name value => do keep name (← handleOf value)
  | .retain name target => do
    let v ← lookup name
    on (Machine.retain v)
    keep target v
  | .drop name => do
    on (Machine.drop (← take name))
    return .done
  | .release name deep => do
    return .number (← on (Machine.release (← take name) deep))
  | .setAdd name value =>
    holding value fun v => do
      let set ← lookup name
      on (Machine.setAdd set v)
      return .added (← on (Machine.count v)) (← viewOf set)
  | .mapAdd name key value =>
    holding key fun k => holding value fun v => do
      let map ← lookup name
      on (Machine.mapAdd map k v)
      return .addedPair (← on (Machine.count k)) (← on (Machine.count v)) (← viewOf map)
  | .listAppend name value =>
    holding value fun v => do
      let list ← lookup name
      on (Machine.listAppend list v)
      return .added (← on (Machine.count v)) (← viewOf list)
  | .setSeries name series => do
    let set ← lookup name
    addSeries (fun i => holding (series.term i) fun v => on (Machine.setAdd set v)) 0 series.count
    return .view (← viewOf set)
  | .mapSeries name series => do
    let map ← lookup name
    addSeries
      (fun i => holding (series.term i) fun k =>
        holding (.int (Int64.ofNat i)) fun v => on (Machine.mapAdd map k v))
      0 series.count
    return .view (← viewOf map)
  | .listSeries name series => do
    let list ← lookup name
    addSeries (fun i => holding (series.term i) fun v => on (Machine.listAppend list v)) 0
      series.count
    return .view (← viewOf list)
  | .setContains name value =>
    holding value fun v => do
      return .flag (← on (Machine.setContains (← lookup name) v))
  | .setElements name => do
    let values ← on (Machine.setElements (← lookup name))
    -- Listing hands out a handle of each element, to be given back once it is described.
    let described ← values.mapM describe
    values.forM fun v => on (Machine.drop v)
    return .boxes described
  | .mapGet name key target =>
    holding key fun k => do
      keepOrDrop target (← on (Machine.mapGet (← lookup name) k))
  | .mapEntries name => do
    let entries ← on (Machine.mapEntries (← lookup name))
    let described ← entries.mapM fun (k, v) => do return (← describe k, ← describe v)
    entries.forM fun (k, v) => do
      on (Machine.drop k)
      on (Machine.drop v)
    return .pairs described
  | .listGet name index target => do
    match ← on (Machine.listGet (← lookup name) index) with
    | some v => keepOrDrop target v
    | none => return .done
  | .indexOf name key target =>
    holding key fun k => do
      keepOrDrop target (← on (Machine.indexOf (← lookup name) k))
  | .lengthOf name target => do
    keepOrDrop target (← on (Machine.lengthOf (← lookup name)))
  | .treeStats name => do
    return .stats (← on (Machine.treeStats (← lookup name)))
  | .info name => do
    let v ← lookup name
    return .info (← describe v) (← viewOf v)
  | .debug name => do return .text (← lookup name).debugText
  | .idText name => do return .text (← lookup name).idText
  | .line value => holding value fun v => return .text (v.text ++ "\n")
  | .same a b =>
    holding a fun a => holding b fun b =>
      return .same (a == b) (a.id == b.id) (Ord.compare a.id b.id)
  | .compare tag a b =>
    holding a fun a => holding b fun b => do
      let tag ← on (Machine.require tag.resolve)
      let compare ← on (Machine.require (comparator tag))
      return .order (← on (Machine.require (compare a b)))
  | .weaken name target => do
    let v ← lookup name
    modify fun s => { s with watched := s.watched.put target v }
    return .flag ((← get).machine.heap.isLive v.id)
  | .live name => do
    let v ← lookupWatched name
    return .flag ((← get).machine.heap.isLive v.id)
  | .upgrade name target => do
    match ← on (Machine.upgrade (← lookupWatched name)) with
    | some v => keepOrDrop target v
    | none => return .done
  | .reconfigure config => do
    modify fun s => { s with machine.config := config }
    return .config config
  | .setLevel level => do
    modify fun s => { s with machine.logger := s.machine.logger.setLevel level }
    return .level (← get).machine.logger.level

/-- Carries out one command, and goes on after a refusal. -/
def step (c : Command) (s : Session) : Except Refusal Answer × Session :=
  match run c s with
  | .ok a s => (.ok a, s)
  | .error r s => (.error r, s)

/-- Carries out commands one after another. -/
def runAll : List Command → Session → List (Except Refusal Answer) × Session
  | [], s => ([], s)
  | c :: cs, s =>
    let (answer, s) := step c s
    let (answers, s) := runAll cs s
    (answer :: answers, s)

end Session

end BoxRuntime
