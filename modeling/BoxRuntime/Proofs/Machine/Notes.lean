/-
  Notes of the machine, and how they are told from their messages.

  Four things are written to the log by operations on boxes: that the last handle of a box is
  released, that a list grew, that an element type was settled, that a chunk was split.  Each is a
  `Note`, which knows the box that it is about.

  In the log there are messages and no notes.  But how a message begins says what it is and which
  box it is about (`Note.startsWith_head`), so that from a log one can pick what was said of one
  box.
-/
import BoxRuntime.Machine.Collections
import BoxRuntime.Proofs.Log.Events
import BoxRuntime.Proofs.Text.Words

namespace BoxRuntime

/-- A message of the machine. -/
inductive Note where
  /-- The last handle of a box is released. -/
  | freed (v : Handle) (deep : Bool)
  | grew (list : Handle) (capacity : Nat)
  | settled (collection : Handle) (type : Tag)
  | split (collection : Handle) (depth index : Nat) (kind : SplitKind)
deriving DecidableEq

/-- What a message of the machine says of a box. -/
inductive Topic where
  | freed
  | grew
  | settled (collection : Tag)
  | split (collection : Tag)
deriving DecidableEq

/-- How a message on a topic begins, for the box with a number. -/
def Topic.head (id : Nat) : Topic → String
  | freed => s!"deallocating box #{id} "
  | grew => s!"list #{id} grew to "
  | settled t => s!"{t.name} #{id} element type fixed "
  | split t => s!"{t.name} #{id} split a chunk "

namespace Note

def topic : Note → Topic
  | freed .. => .freed
  | grew .. => .grew
  | settled collection _ => .settled collection.tag
  | split collection .. => .split collection.tag

/-- The box that the note is about. -/
def subject : Note → Handle
  | freed v _ | grew v _ | settled v _ | split v .. => v

def level : Note → Level
  | freed .. | grew .. => .trace
  | settled .. | split .. => .debug

def component : Note → Component
  | freed .. => .box
  | grew .. => .list
  | settled .. | split .. => .tree

def message : Note → String
  | freed v deep => s!"deallocating box {v.idText} ({v.tag.name}, deep = {deep})"
  | grew list capacity => s!"list {list.idText} grew to {capacity} slots"
  | settled collection type =>
    s!"{collection.tag.name} {collection.idText} element type fixed to {type.name}"
  | split collection depth index kind =>
    s!"{collection.tag.name} {collection.idText} split a chunk at depth {depth} (index {index}, {Machine.splitText kind} moved down)"

/-- What the note is to a logger. -/
def event (n : Note) : LogEvent :=
  .record n.level n.component.target n.message

/-- The record of the note in the log. -/
def record (l : Logger) (n : Note) : Record :=
  l.recordOf n.level n.component.target n.message

end Note

/-! ## Notes and their messages -/

/-- The word for a box. -/
def idWord (id : Nat) : String :=
  "#" ++ id.repr

theorem isWord_idWord (id : Nat) : IsWord (idWord id) :=
  IsWord.append (by decide) (isWord_repr id)

/-- Different boxes have different words. -/
theorem idWord_inj {id id' : Nat} : idWord id = idWord id' ↔ id = id' := by
  rw [idWord, idWord, String.append_right_inj, Nat.repr_inj]

namespace Topic

/-- The first three words of a message, which tell the topic and the box. -/
def words (id : Nat) : Topic → String × String × String
  | freed => ("deallocating", "box", idWord id)
  | grew => ("list", idWord id, "grew")
  | settled t => (t.name, idWord id, "element")
  | split t => (t.name, idWord id, "split")

/-- What follows them in every message on the topic. -/
def more : Topic → String
  | freed => ""
  | grew => "to "
  | settled _ => "type fixed "
  | split _ => "a chunk "

/-- A message begins with three words. -/
theorem isWord_words (topic : Topic) (id : Nat) :
    IsWord (topic.words id).1 ∧ IsWord (topic.words id).2.1 ∧ IsWord (topic.words id).2.2 := by
  have hid := isWord_idWord id
  cases topic with
  | freed => exact ⟨(by decide : IsWord "deallocating"), (by decide : IsWord "box"), hid⟩
  | grew => exact ⟨(by decide : IsWord "list"), hid, (by decide : IsWord "grew")⟩
  | settled t => exact ⟨isWord_tagName t, hid, (by decide : IsWord "element")⟩
  | split t => exact ⟨isWord_tagName t, hid, (by decide : IsWord "split")⟩

/-- They tell the topic and the box apart from all others. -/
theorem words_inj {topic topic' : Topic} {id id' : Nat} :
    topic.words id = topic'.words id' ↔ topic = topic' ∧ id = id' := by
  -- no type is called so
  have hfreed : ∀ t : Tag, t.name ≠ "deallocating" := by
    intro t
    cases t <;> decide
  constructor
  · intro h
    cases topic <;> cases topic' <;>
      simp [words, idWord_inj, tagName_inj, hfreed, (hfreed _).symm] at h ⊢ <;> exact h
  · rintro ⟨rfl, rfl⟩
    rfl

/-- The head of a message is these words with blanks between them. -/
theorem head_eq (topic : Topic) (id : Nat) :
    topic.head id = (topic.words id).1 ++ (" " ++ ((topic.words id).2.1 ++
      (" " ++ ((topic.words id).2.2 ++ (" " ++ topic.more))))) := by
  -- The message is cut at its blanks. Each literal is taken apart by `rfl`, and the rest is that
  -- joining is associative.
  have hnumber : " #" = " " ++ "#" := rfl
  cases topic with
  | freed =>
    have hfirst : "deallocating box #" = "deallocating" ++ (" " ++ ("box" ++ (" " ++ "#"))) := rfl
    show "deallocating box #" ++ id.repr ++ " " =
      "deallocating" ++ (" " ++ ("box" ++ (" " ++ ("#" ++ id.repr ++ (" " ++ "")))))
    simp only [hfirst, String.append_assoc, String.append_empty]
  | grew =>
    have hfirst : "list #" = "list" ++ (" " ++ "#") := rfl
    have hlast : " grew to " = " " ++ ("grew" ++ (" " ++ "to ")) := rfl
    show "list #" ++ id.repr ++ " grew to " =
      "list" ++ (" " ++ ("#" ++ id.repr ++ (" " ++ ("grew" ++ (" " ++ "to ")))))
    simp only [hfirst, hlast, String.append_assoc]
  | settled t =>
    have hlast : " element type fixed " = " " ++ ("element" ++ (" " ++ "type fixed ")) := rfl
    show t.name ++ " #" ++ id.repr ++ " element type fixed " =
      t.name ++ (" " ++ ("#" ++ id.repr ++ (" " ++ ("element" ++ (" " ++ "type fixed ")))))
    simp only [hnumber, hlast, String.append_assoc]
  | split t =>
    have hlast : " split a chunk " = " " ++ ("split" ++ (" " ++ "a chunk ")) := rfl
    show t.name ++ " #" ++ id.repr ++ " split a chunk " =
      t.name ++ (" " ++ ("#" ++ id.repr ++ (" " ++ ("split" ++ (" " ++ "a chunk ")))))
    simp only [hnumber, hlast, String.append_assoc]

end Topic

/-- A message begins as all messages on its topic do. -/
theorem Note.message_eq (n : Note) : ∃ rest, n.message = n.topic.head n.subject.id ++ rest := by
  cases n with
  | freed v deep =>
    -- Again by taking the literals apart.
    have hfirst : "deallocating box #" = "deallocating box " ++ "#" := rfl
    have hlast : " (" = " " ++ "(" := rfl
    refine ⟨"(" ++ v.tag.name ++ ", deep = " ++ toString deep ++ ")", ?_⟩
    show "deallocating box " ++ ("#" ++ v.id.repr) ++ " (" ++ v.tag.name ++ ", deep = " ++
      toString deep ++ ")" = "deallocating box #" ++ v.id.repr ++ " " ++ _
    simp only [hfirst, hlast, String.append_assoc]
  | grew list capacity =>
    have hfirst : "list #" = "list " ++ "#" := rfl
    refine ⟨capacity.repr ++ " slots", ?_⟩
    show "list " ++ ("#" ++ list.id.repr) ++ " grew to " ++ capacity.repr ++ " slots" =
      "list #" ++ list.id.repr ++ " grew to " ++ _
    simp only [hfirst, String.append_assoc]
  | settled collection type =>
    have hfirst : " #" = " " ++ "#" := rfl
    have hlast : " element type fixed to " = " element type fixed " ++ "to " := rfl
    refine ⟨"to " ++ type.name, ?_⟩
    show collection.tag.name ++ " " ++ ("#" ++ collection.id.repr) ++ " element type fixed to " ++
      type.name = collection.tag.name ++ " #" ++ collection.id.repr ++ " element type fixed " ++ _
    simp only [hfirst, hlast, String.append_assoc]
  | split collection depth index kind =>
    have hfirst : " #" = " " ++ "#" := rfl
    have hlast : " split a chunk at depth " = " split a chunk " ++ "at depth " := rfl
    refine ⟨"at depth " ++ depth.repr ++ " (index " ++ index.repr ++ ", " ++
      Machine.splitText kind ++ " moved down)", ?_⟩
    show collection.tag.name ++ " " ++ ("#" ++ collection.id.repr) ++ " split a chunk at depth " ++
      depth.repr ++ " (index " ++ index.repr ++ ", " ++ Machine.splitText kind ++ " moved down)" =
      collection.tag.name ++ " #" ++ collection.id.repr ++ " split a chunk " ++ _
    simp only [hfirst, hlast, String.append_assoc]

/-- **How a message begins tells its topic and the box it is about.** -/
theorem Note.startsWith_head (n : Note) (topic : Topic) (id : Nat) :
    n.message.startsWith (topic.head id) = true ↔ n.topic = topic ∧ n.subject.id = id := by
  obtain ⟨rest, hrest⟩ := n.message_eq
  constructor
  · intro h
    -- Both heads are three words and some text, so one begins with the other only if the words
    -- agree.
    obtain ⟨hfirst, hsecond, hthird⟩ := topic.isWord_words id
    obtain ⟨hfirst', hsecond', hthird'⟩ := n.topic.isWord_words n.subject.id
    rw [hrest, Topic.head_eq, Topic.head_eq] at h
    simp only [String.append_assoc] at h
    rw [startsWith_word hfirst hfirst', startsWith_word hsecond hsecond',
      startsWith_word hthird hthird'] at h
    obtain ⟨hfirst, hsecond, hthird, -⟩ := h
    have hwords := Topic.words_inj.mp (Prod.ext hfirst (Prod.ext hsecond hthird))
    exact ⟨hwords.1.symm, hwords.2.symm⟩
  · rintro ⟨rfl, rfl⟩
    rw [hrest, String.startsWith_string_iff, String.toList_append]
    exact List.prefix_append _ _

end BoxRuntime
