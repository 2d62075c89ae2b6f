/-
  Commands of a session, and their answers.

  A session drives a machine by commands that name the handles it keeps.  Values that a command
  needs once are given by a `Source` and boxed for that command alone.
-/
import BoxRuntime.Machine.Collections
import BoxRuntime.Names

namespace BoxRuntime

/-- A type tag given by name or by code. -/
inductive TagRef where
  | tag (t : Tag)
  | code (n : Int)
deriving DecidableEq

/-- The tag that is meant, if the code is one. -/
def TagRef.resolve : TagRef → Except Fault Tag
  | tag t => .ok t
  | code n =>
    match Tag.ofCode? n with
    | some t => .ok t
    | none => .error (.invalidTag n)

/-- A value for one command: a new box, or another handle of a box the session keeps. -/
inductive Source where
  | int (n : Int64)
  | text (s : String)
  | empty (tag : TagRef)
  | var (name : String)
deriving DecidableEq

/-- Values in arithmetic progression, as ints or as strings that end in the number. -/
structure Series where
  start : Int
  step : Int
  count : Nat
  /-- Take the numbers modulo this one. -/
  modulus : Option Int
  /-- Put this in front of each number, making it a string. -/
  label : Option String
deriving DecidableEq

/-- The value at a position of the series. -/
def Series.term (s : Series) (i : Nat) : Source :=
  let n := s.start + i * s.step
  let n := match s.modulus with
    | some m => n % m
    | none => n
  match s.label with
  | some label => .text (label ++ toString n)
  | none => .int (Int64.ofInt n)

/-- A command.  A result is kept under the name `bind`; where that is optional, a result without a
name is given up again. -/
inductive Command where
  | string (bind text : String)
  | int (bind : String) (n : Int64)
  | empty (bind : String) (tag : TagRef)
  | list (bind : String) (hint : Option Nat)
  | set (bind : String) (elementType : TagRef)
  | map (bind : String) (keyType : TagRef)
  | box (bind : String) (value : Source)
  | retain (name bind : String)
  | drop (name : String)
  | release (name : String) (deep : Bool)
  | setAdd (set : String) (value : Source)
  | mapAdd (map : String) (key value : Source)
  | listAppend (list : String) (value : Source)
  | setSeries (set : String) (series : Series)
  | mapSeries (map : String) (series : Series)
  | listSeries (list : String) (series : Series)
  | setContains (set : String) (value : Source)
  | setElements (set : String)
  | mapGet (map : String) (key : Source) (bind : Option String)
  | mapEntries (map : String)
  | listGet (list : String) (index : Nat) (bind : Option String)
  | indexOf (name : String) (key : Source) (bind : Option String)
  | lengthOf (name : String) (bind : Option String)
  | treeStats (name : String)
  | info (name : String)
  | debug (name : String)
  | idText (name : String)
  | line (value : Source)
  | same (a b : Source)
  | compare (tag : TagRef) (a b : Source)
  | weaken (name bind : String)
  | live (weak : String)
  | upgrade (weak : String) (bind : Option String)
  | reconfigure (config : RuntimeConfig)
  | setLevel (level : Level)
deriving DecidableEq

/-- A handle with the number of handles its box had when it was looked at. -/
structure Description where
  handle : Handle
  count : Nat
deriving DecidableEq

/-- What can be seen of a box's content. -/
inductive View where
  | list (length capacity : Nat) (isEmpty : Bool)
  | tree (elementType : Option Tag) (size : Nat) (isEmpty : Bool) (hint : Option RebalanceHint)
      (stats : TreeStats)
  | plain (text : Option String) (number : Option Int64)
deriving DecidableEq

/-- The answer to a command. -/
inductive Answer where
  | done
  | number (n : Nat)
  | flag (b : Bool)
  | text (s : String)
  | box (d : Description)
  | boxes (ds : List Description)
  | pairs (ds : List (Description × Description))
  /-- A value was added; the handles of the value, or of key and value, and the container then. -/
  | added (count : Nat) (view : View)
  | addedPair (keyCount valueCount : Nat) (view : View)
  | view (v : View)
  | stats (s : TreeStats)
  | info (d : Description) (v : View)
  /-- Whether two handles are of one box, whether the numbers agree, and the numbers' order. -/
  | same (box id : Bool) (order : Ordering)
  | order (o : Ordering)
  | config (c : RuntimeConfig)
  | level (l : Level)
deriving DecidableEq

/-- Why a command was refused. -/
inductive Refusal where
  | fault (f : Fault)
  | unbound (name : String)
deriving DecidableEq

end BoxRuntime
