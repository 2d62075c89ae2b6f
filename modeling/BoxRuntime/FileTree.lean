/-
  The tree of files.

  Scripts and log files are named by paths.  A path is a list of names, followed from folder to
  folder; it starts at the root if a slash begins it, and in the working folder otherwise.  One dot
  stays in a folder, two dots go up, and the root has nothing above it.

  A place in the tree is given by the names that lead to it from the root, the last name first, so
  going down adds a name at the front and going up takes one away (`FileTree.follow`).  What there
  is at the places is for the system to say.
-/

namespace BoxRuntime

/-- Why a path cannot be opened as a file. -/
inductive PathFault where
  | missing
  | isFolder
  | notFolder
  | nulByte
  | tooLong
deriving DecidableEq

/-- The fault in the words of the operating system. -/
def PathFault.message : PathFault → String
  | missing => "No such file or directory (os error 2)"
  | isFolder => "Is a directory (os error 21)"
  | notFolder => "Not a directory (os error 20)"
  | nulByte => "file name contained an unexpected NUL byte"
  | tooLong => "File name too long (os error 36)"

/-- The names that lead to a file or folder, the last one first.  The root is the empty list. -/
abbrev Place := List String

/-- What there can be at a place. -/
inductive Node where
  | folder
  | file (content : ByteArray)
  /-- A device has nothing to read and loses what is written to it. -/
  | device

/-- Files, folders and devices by place, and the folder that paths start in. -/
structure FileTree where
  nodes : List (Place × Node)
  here : Place

/-- What a file is opened for. -/
inductive Access where
  /-- To read it.  It must be there. -/
  | read
  /-- To add to it.  It is made if it is not there. -/
  | add
deriving DecidableEq

namespace FileTree

/-- What there is at a place. -/
def node? (t : FileTree) (place : Place) : Option Node :=
  if place = [] then some .folder else t.nodes.lookup place

/-! ## Following a path -/

/-- The longest name, in bytes. -/
def nameLimit : Nat := 255

/-- The longest path, in bytes. -/
def pathLimit : Nat := 4095

/-- The names on a path.  Slashes that follow each other count as one. -/
def pathNames (path : String) : List String :=
  (path.splitOn "/").filter (· != "")

/-- The place that the last name of a path means in a folder, for a file.  A slash after the name
asks for a folder: no file is made for it, and a file that is there will not do. -/
def last (t : FileTree) (access : Access) (slash : Bool) (place : Place) (name : String) :
    Except PathFault Place :=
  if access = .add && slash then .error .isFolder
  else if nameLimit < name.utf8ByteSize then .error .tooLong
  else
    match t.node? (name :: place) with
    | some .folder => .error .isFolder
    | some _ => if slash then .error .notFolder else .ok (name :: place)
    | none => if access = .read then .error .missing else .ok (name :: place)

/-- Follows names from a folder to the file that the last of them means. -/
def follow (t : FileTree) (access : Access) (slash : Bool) (place : Place) :
    List String → Except PathFault Place
  | [] => .error .isFolder
  | name :: rest =>
    if name = "." then t.follow access slash place rest
    else if name = ".." then t.follow access slash place.tail rest
    else if rest.isEmpty then t.last access slash place name
    else if nameLimit < name.utf8ByteSize then .error .tooLong
    else
      match t.node? (name :: place) with
      | some .folder => t.follow access slash (name :: place) rest
      | some _ => .error .notFolder
      | none => .error .missing

/-- The place of the file that a path means. -/
def locate (t : FileTree) (access : Access) (path : String) : Except PathFault Place :=
  if path.toList.contains '\x00' then .error .nulByte
  else if pathLimit < path.utf8ByteSize then .error .tooLong
  else if path.isEmpty then .error .missing
  else
    t.follow access (path.endsWith "/") (if path.startsWith "/" then [] else t.here)
      (pathNames path)

/-! ## Reading and writing -/

/-- Opens a file to add to it, and makes it if it is not there. -/
def openToAdd (t : FileTree) (path : String) : Except PathFault (Place × FileTree) :=
  (t.locate .add path).map fun place =>
    match t.node? place with
    | some _ => (place, t)
    | none => (place, { t with nodes := (place, .file .empty) :: t.nodes })

/-- Adds text to a file. -/
def add (t : FileTree) (place : Place) (text : String) : FileTree :=
  { t with
    nodes := t.nodes.map fun
      | (p, .file content) => (p, .file (if p = place then content ++ text.toUTF8 else content))
      | other => other }

/-- What can be read at a place. -/
def content? (t : FileTree) (place : Place) : Option ByteArray :=
  match t.node? place with
  | some (.file content) => some content
  | some .device => some .empty
  | some .folder | none => none

/-- Reads a file. -/
def read (t : FileTree) (path : String) : Except PathFault ByteArray :=
  match t.locate .read path with
  | .error e => .error e
  | .ok place =>
    match t.content? place with
    | some content => .ok content
    | none => .error .missing

end FileTree

end BoxRuntime
