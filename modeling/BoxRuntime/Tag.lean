/-
  Type tags.

  Every box carries one of ten tags, fixed when the box is made.  A tag has a name, used in
  messages and in JSON, and a code, used by compiled programs.  Codes run from −1 (no type) to 8;
  `ofCode?` accepts exactly those and undoes `code`.
-/

namespace BoxRuntime

/-- What kind of content a box has.  `none` also stands for "element type not chosen yet". -/
inductive Tag where
  | none
  | any
  | string
  | int
  | wideInt
  | list
  | set
  | map
  | record
  | fields
deriving DecidableEq, Inhabited

namespace Tag

/-- Every tag once, by increasing code. -/
def all : List Tag :=
  [none, any, string, int, wideInt, list, set, map, record, fields]

/-- The number a compiled program uses for the tag. -/
def code : Tag → Int
  | none => -1
  | any => 0
  | string => 1
  | int => 2
  | wideInt => 3
  | list => 4
  | set => 5
  | map => 6
  | record => 7
  | fields => 8

/-- The tag with a given code, if there is one. -/
def ofCode? (n : Int) : Option Tag :=
  all.find? fun t => t.code == n

/-- The tag's name in messages and in JSON. -/
def name : Tag → String
  | none => "none"
  | any => "any"
  | string => "string"
  | int => "int"
  | wideInt => "wideint"
  | list => "list"
  | set => "set"
  | map => "map"
  | record => "record"
  | fields => "fields"

/-- The tag with a given name, if there is one.  Names are compared letter by letter. -/
def ofName? (s : String) : Option Tag :=
  all.find? fun t => t.name == s

/-- Boxes with these tags own handles of other boxes. -/
def isContainer : Tag → Bool
  | list | set | map => true
  | _ => false

/-- No tag is missing from the list of all tags. -/
theorem mem_all (t : Tag) : t ∈ all := by
  cases t <;> decide

/-- Every tag is read back from its number. -/
theorem ofCode?_code (t : Tag) : ofCode? t.code = some t := by
  cases t <;> decide

/-- A code belongs to one tag only. -/
theorem code_of_ofCode? {n : Int} {t : Tag} (h : ofCode? n = some t) : t.code = n := by
  simpa using List.find?_some h

end Tag

end BoxRuntime
