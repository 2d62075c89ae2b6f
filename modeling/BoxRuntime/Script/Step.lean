/-
  Scripts.

  A script is a list of steps to carry out on a machine, preceded by named blocks of steps that
  prepare it.  Steps name the boxes they make and use; a step with a result and no name for it
  prints the result.
-/
import BoxRuntime.Handle

namespace BoxRuntime

/-- A value in a step: a number or a text to box, or the name of a box. -/
inductive Operand where
  | int (n : Int64)
  | text (s : String)
  | var (name : String)
deriving DecidableEq

/-- A step of a script. -/
inductive Step where
  | setNew (bind : String) (elementType : Option Tag)
  | mapNew (bind : String) (keyType : Option Tag)
  | listNew (bind : String) (sizeHint : Option Nat)
  | box (bind : String) (value : Operand)
  | setAdd (set : String) (value : Operand)
  | mapAdd (map : String) (key value : Operand)
  | listAppend (list : String) (value : Operand)
  | listGet (bind : Option String) (list : String) (index : Nat)
  | indexOf (bind : Option String) (collection : String) (key : Operand)
  | lengthOf (bind : Option String) (collection : String)
  | print (value : Operand)
  | release (name : String) (deep : Bool)
deriving DecidableEq

/-- Steps that prepare a program, with a name for the log. -/
structure InitBlock where
  name : String
  steps : List Step
deriving DecidableEq

/-- A script. -/
structure Script where
  init : List InitBlock := []
  steps : List Step := []
deriving DecidableEq

end BoxRuntime
