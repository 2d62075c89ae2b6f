/-
  Reading JSON text.

  The reader takes one token after another and keeps, besides what it expects next, the arrays and
  objects that are still open, the innermost first.  So values may be nested as deep as they like.
  It accepts exactly one value, with blanks around its tokens.
-/
import BoxRuntime.Json.Lexer

namespace BoxRuntime.Json

/-- An array or object that is still open: what it holds so far, the latest first. -/
inductive Frame where
  | array (done : List Json)
  /-- The value of the member `key` comes next. -/
  | object (done : List (Option String × Json)) (key : Option String)

/-- What the reader expects, inside which open frames. -/
inductive State where
  /-- A value. -/
  | value (opened : List Frame)
  /-- The first element of an array, or its end. -/
  | element (opened : List Frame)
  /-- The first name of an object, or its end. -/
  | member (opened : List Frame)
  /-- Another name. -/
  | key (done : List (Option String × Json)) (opened : List Frame)
  /-- The colon after a name. -/
  | colon (done : List (Option String × Json)) (key : Option String) (opened : List Frame)
  /-- What follows a value. -/
  | after (v : Json) (opened : List Frame)

/-- The state after a token where a value is expected. -/
def valueToken (opened : List Frame) : Token → Option State
  | .scalar v => some (.after v opened)
  | .string t => some (.after (.string t) opened)
  | .openArray => some (.element opened)
  | .openObject => some (.member opened)
  | _ => none

/-- The state after a token, if the token is expected. -/
def State.next : State → Token → Option State
  | .value opened, t => valueToken opened t
  | .element opened, .closeArray => some (.after (.array []) opened)
  | .element opened, t => valueToken (.array [] :: opened) t
  | .member opened, .closeObject => some (.after (.object []) opened)
  | .member opened, .string k => some (.colon [] k opened)
  | .key done opened, .string k => some (.colon done k opened)
  | .colon done k opened, .colon => some (.value (.object done k :: opened))
  | .after v (.array done :: opened), .comma => some (.value (.array (v :: done) :: opened))
  | .after v (.array done :: opened), .closeArray =>
    some (.after (.array (v :: done).reverse) opened)
  | .after v (.object done k :: opened), .comma => some (.key ((k, v) :: done) opened)
  | .after v (.object done k :: opened), .closeObject =>
    some (.after (.object ((k, v) :: done).reverse) opened)
  | _, _ => none

/-- The value that has been read, if nothing is open. -/
def State.result : State → Option Json
  | .after v [] => some v
  | _ => none

/-- Reads the rest of a text. -/
def run (state : State) (s : List Char) : Option Json :=
  match s with
  | [] => state.result
  | c :: rest =>
    if isBlank c then run state rest
    else
      match _h : token? (c :: rest) with
      | none => none
      | some (t, rest') =>
        match state.next t with
        | none => none
        | some state => run state rest'
termination_by s.length
decreasing_by
  · simp
  · exact token?_length _h

/-- Reads a text as one value. -/
def parse? (s : String) : Option Json :=
  run (.value []) s.toList

end BoxRuntime.Json
