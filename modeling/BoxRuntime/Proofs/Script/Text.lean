/-
  Scripts as text.

  What an object has to say to describe a script is laid down here from the script: for each step
  the fields that it has besides `op` and what each of them holds (`Step.slots`), and for each kind
  of content what a field may say (`Slot.Says`).  Only the order of the members and what else an
  object has is left to the object.

  The main statement (`Script.texts_read_back`) is that a script is read from every text of every
  object that describes it, and that there are such objects.  The crux is the step.  It is looked
  through twice, once for `op` and once for the fields that go with it, so neither may depend on
  where the members stand; and before that it is read whole, so what is passed over must be readable
  too.
-/
import BoxRuntime.Proofs.Json.Reading
import BoxRuntime.Proofs.Json.Records
import BoxRuntime.Script.Text

namespace BoxRuntime

open Json

/-! ## What an object says

  Laid down from the script, in the words of the format: names of fields, kinds of contents, and
  what a field that is left out stands for. -/

/-- The value is an unsigned integer of 64 bits. -/
def IsUnsigned (n : Nat) (v : Json) : Prop :=
  v = .int n ∧ n ≤ maxWord

/-- A number or a text says itself, and an object says which box is meant. -/
inductive Operand.Describes : Operand → Json → Prop
  | int (n : Int64) : Describes (.int n) (.int n.toInt)
  | text (s : String) : Describes (.text s) (.text s)
  | var {name : String} {v : Json} (h : v.Gives [("var", some (.text name))]) :
      Describes (.var name) v

/-- What a field of a step holds. -/
inductive Slot where
  | name (s : String)
  | bind (s : Option String)
  | tag (t : Option Tag)
  | hint (n : Option Nat)
  | index (n : Nat)
  | operand (o : Operand)
  | deep (b : Bool)

/-- What the field may say. -/
def Slot.Says : Slot → Option Json → Prop
  | name s, x => x = some (.text s)
  | bind s, x => Nullable (fun s v => v = .text s) s x
  | tag t, x => Nullable (fun t v => v = .text t.name) t x
  | hint n, x => Nullable IsUnsigned n x
  | index n, x => ∃ v, IsUnsigned n v ∧ x = some v
  | operand o, x => ∃ v, o.Describes v ∧ x = some v
  | deep b, x => Omittable (fun b v => v = .bool b) false b x

namespace Step

/-- What a step says it does. -/
def op : Step → String
  | setNew .. => "set_new"
  | mapNew .. => "map_new"
  | listNew .. => "list_new"
  | box .. => "box"
  | setAdd .. => "set_add"
  | mapAdd .. => "map_add"
  | listAppend .. => "list_append"
  | listGet .. => "list_get"
  | indexOf .. => "index_of"
  | lengthOf .. => "length_of"
  | print .. => "print"
  | release .. => "release"

/-- The further fields of a step. -/
def slots : Step → List (String × Slot)
  | setNew bind tag => [("let", .name bind), ("element_type", .tag tag)]
  | mapNew bind tag => [("let", .name bind), ("key_type", .tag tag)]
  | listNew bind hint => [("let", .name bind), ("size_hint", .hint hint)]
  | box bind value => [("let", .name bind), ("value", .operand value)]
  | setAdd set value => [("set", .name set), ("value", .operand value)]
  | mapAdd map key value => [("map", .name map), ("key", .operand key), ("value", .operand value)]
  | listAppend list value => [("list", .name list), ("value", .operand value)]
  | listGet bind list index => [("let", .bind bind), ("list", .name list), ("index", .index index)]
  | indexOf bind collection key =>
    [("let", .bind bind), ("collection", .name collection), ("key", .operand key)]
  | lengthOf bind collection => [("let", .bind bind), ("collection", .name collection)]
  | print value => [("value", .operand value)]
  | release name deep => [("value", .name name), ("deep", .deep deep)]

/-- The object describes the step. -/
def Describes (s : Step) (v : Json) : Prop :=
  ∃ fields, List.Forall₂ (fun slot field => field.1 = slot.1 ∧ slot.2.Says field.2) s.slots fields ∧
    v.Gives (("op", some (.text s.op)) :: fields)

end Step

/-- The object describes the block. -/
def InitBlock.Describes (b : InitBlock) (v : Json) : Prop :=
  ∃ steps, Lists Step.Describes b.steps steps ∧
    v.Gives [("name", some (.text b.name)), ("steps", some steps)]

/-- The object describes the script. -/
def Script.Describes (s : Script) (v : Json) : Prop :=
  ∃ init steps, Omittable (Lists InitBlock.Describes) [] s.init init ∧
    Omittable (Lists Step.Describes) [] s.steps steps ∧ v.Gives [("init", init), ("steps", steps)]

/-! ## Operands

  Three kinds, of which one is an object itself. -/

/-- A value that describes an operand is read as this operand. -/
theorem Operand.ofJson?_of_describes {o : Operand} {v : Json} (h : o.Describes v) :
    Operand.ofJson? v = some o := by
  -- An int as it is, a text as it is, or an object that has the one member.
  cases h with
  | int n =>
    have hlt : n.toInt < intBound := n.toInt_lt
    rw [Operand.ofJson?, int64?, if_pos hlt, Int64.ofInt_toInt]
    rfl
  | text s => rfl
  | @var name v h =>
    obtain ⟨members, extra, rfl, hrest⟩ := id h
    have hname : objectFields? ["var"] (members.map fun m => (some m.1, m.2)) =
        some ([("var", some (.text name))].map Prod.snd) :=
      objectFields?_of_gives h (by simp) (List.Subset.refl _) rfl
    rw [ofMembers, Operand.ofJson?, hname]
    rfl

/-- It is a scalar, or an object of scalars. -/
theorem Operand.Describes.small {o : Operand} {v : Json} (h : o.Describes v) : v.Small 1 := by
  cases h with
  | int n =>
    have hlow : -(intBound : Int) ≤ n.toInt := n.le_toInt
    have hhigh : n.toInt ≤ maxWord := Int.le_of_lt (Int.lt_trans n.toInt_lt (by decide))
    exact (IsScalar.int hlow hhigh).small 1
  | text s => exact (IsScalar.text s).small 1
  | var h =>
    refine small_of_gives h (List.forall_mem_singleton.mpr ?_)
    exact ((IsScalar.text _).small 0).forall_mem_some

theorem Operand.exists_describes (o : Operand) : ∃ v, o.Describes v := by
  cases o with
  | int n => exact ⟨_, .int n⟩
  | text s => exact ⟨_, .text s⟩
  | var name =>
    obtain ⟨v, hv⟩ := exists_gives [("var", some (.text name))]
    exact ⟨v, .var hv⟩

/-! ## Fields of steps

  One lemma for each kind of content: a field that says it is decoded as it. -/

namespace Slot

/-- Slot by slot, a field that says something is read as that. -/
theorem required_name {s : String} {x : Option Json} (h : (name s).Says x) :
    required text? x = some s := by
  obtain rfl := h
  rfl

/-- A missing name and null are the same. -/
theorem optional_bind {s : Option String} {x : Option Json} (h : (bind s).Says x) :
    optional text? x = some s :=
  Nullable.optional h (fun _ _ hv => hv ▸ rfl) rfl

/-- Types are named in steps as everywhere else. -/
theorem tag?_name (t : Tag) : Step.tag? (.text t.name) = some t := by
  cases t <;> decide

theorem optional_tag {t : Option Tag} {x : Option Json} (h : (tag t).Says x) :
    optional Step.tag? x = some t :=
  Nullable.optional h (fun t _ hv => hv ▸ tag?_name t) rfl

/-- Whole numbers are read as natural numbers. -/
theorem nat?_of_isUnsigned {n : Nat} {v : Json} (h : IsUnsigned n v) : nat? v = some n := by
  obtain ⟨rfl, -⟩ := h
  rw [nat?, if_pos (Int.natCast_nonneg n), Int.toNat_natCast]

/-- A missing hint and null are the same. -/
theorem optional_hint {n : Option Nat} {x : Option Json} (h : (hint n).Says x) :
    optional nat? x = some n :=
  Nullable.optional h (fun _ _ => nat?_of_isUnsigned) rfl

theorem required_index {n : Nat} {x : Option Json} (h : (index n).Says x) :
    required nat? x = some n := by
  obtain ⟨v, hv, rfl⟩ := h
  exact nat?_of_isUnsigned hv

theorem required_operand {o : Operand} {x : Option Json} (h : (operand o).Says x) :
    required Operand.ofJson? x = some o := by
  obtain ⟨v, hv, rfl⟩ := h
  exact Operand.ofJson?_of_describes hv

/-- A release is a shallow one unless it says otherwise. -/
theorem defaulted_deep {b : Bool} {x : Option Json} (h : (deep b).Says x) :
    defaulted false bool? x = some b :=
  Omittable.defaulted h fun _ _ hv => hv ▸ rfl

theorem small_unsigned {n : Nat} {v : Json} (h : IsUnsigned n v) (d : Nat) : v.Small d := by
  obtain ⟨rfl, hn⟩ := h
  exact (IsScalar.int (by omega) (Int.ofNat_le.mpr hn)).small d

/-- A field holds one object at most. -/
theorem small_of_says {slot : Slot} {x : Option Json} (h : slot.Says x) : ∀ v ∈ x, v.Small 1 := by
  -- A slot is left out or holds a scalar; only an operand may hold an object, of a scalar.
  cases slot with
  | name s =>
    obtain rfl := h
    exact ((IsScalar.text s).small 1).forall_mem_some
  | bind s => exact Nullable.small h fun s _ hv => hv ▸ (IsScalar.text s).small 1
  | tag t => exact Nullable.small h fun t _ hv => hv ▸ (IsScalar.text t.name).small 1
  | hint n => exact Nullable.small h fun _ _ hv => small_unsigned hv 1
  | index n =>
    obtain ⟨v, hv, rfl⟩ := h
    exact (small_unsigned hv 1).forall_mem_some
  | operand o =>
    obtain ⟨v, hv, rfl⟩ := h
    exact hv.small.forall_mem_some
  | deep b => exact Omittable.small h fun b _ hv => hv ▸ (IsScalar.bool b).small 1

/-- A number in the field has 64 bits at most. -/
def InRange : Slot → Prop
  | hint n => ∀ k ∈ n, k ≤ maxWord
  | index n => n ≤ maxWord
  | _ => True

instance : DecidablePred InRange
  | hint n => inferInstanceAs (Decidable (∀ k ∈ n, k ≤ maxWord))
  | index n => inferInstanceAs (Decidable (n ≤ maxWord))
  | name _ | bind _ | tag _ | operand _ | deep _ => .isTrue trivial

/-- Every slot can be written if its numbers fit into words. -/
theorem exists_says {slot : Slot} (h : slot.InRange) : ∃ x, slot.Says x := by
  cases slot with
  | name s => exact ⟨_, rfl⟩
  | bind s => exact Nullable.exists fun s _ => ⟨_, rfl⟩
  | tag t => exact Nullable.exists fun t _ => ⟨_, rfl⟩
  | hint n => exact Nullable.exists fun k hk => ⟨_, rfl, h k hk⟩
  | index n => exact ⟨_, _, ⟨rfl, h⟩, rfl⟩
  | operand o =>
    obtain ⟨v, hv⟩ := o.exists_describes
    exact ⟨_, v, hv, rfl⟩
  | deep b => exact ⟨_, .present rfl⟩

end Slot

/-! ## Steps

  The fields of a step are found wherever they stand, and each kind of step has its own. -/

namespace Step

variable {s : Step} {v : Json}

/-- The names of a step's fields are those of its slots. -/
theorem fieldNames_op (s : Step) : fieldNames s.op = some (s.slots.map Prod.fst) := by
  cases s <;> rfl

/-- No two fields of a step have the same name, and none is called as the tag is. -/
theorem nodup_names (s : Step) : ("op" :: s.slots.map Prod.fst).Nodup := by
  cases s <;> simp [slots]

/-- Fields that say what a step holds are the fields of this step. -/
theorem ofFields?_of_says {xs : List (Option Json)}
    (h : List.Forall₂ (fun slot x => Slot.Says slot.2 x) s.slots xs) :
    ofFields? s.op xs = some s := by
  -- Each step takes its slots apart in their order, and reads each by its kind.
  cases s with
  | setNew bind tag =>
    obtain _ | ⟨hbind, _ | ⟨htag, _ | _⟩⟩ := h
    simp [op, ofFields?, Slot.required_name hbind, Slot.optional_tag htag]
  | mapNew bind tag =>
    obtain _ | ⟨hbind, _ | ⟨htag, _ | _⟩⟩ := h
    simp [op, ofFields?, Slot.required_name hbind, Slot.optional_tag htag]
  | listNew bind hint =>
    obtain _ | ⟨hbind, _ | ⟨hhint, _ | _⟩⟩ := h
    simp [op, ofFields?, Slot.required_name hbind, Slot.optional_hint hhint]
  | box bind value =>
    obtain _ | ⟨hbind, _ | ⟨hvalue, _ | _⟩⟩ := h
    simp [op, ofFields?, Slot.required_name hbind, Slot.required_operand hvalue]
  | setAdd set value =>
    obtain _ | ⟨hset, _ | ⟨hvalue, _ | _⟩⟩ := h
    simp [op, ofFields?, Slot.required_name hset, Slot.required_operand hvalue]
  | mapAdd map key value =>
    obtain _ | ⟨hmap, _ | ⟨hkey, _ | ⟨hvalue, _ | _⟩⟩⟩ := h
    simp [op, ofFields?, Slot.required_name hmap, Slot.required_operand hkey,
      Slot.required_operand hvalue]
  | listAppend list value =>
    obtain _ | ⟨hlist, _ | ⟨hvalue, _ | _⟩⟩ := h
    simp [op, ofFields?, Slot.required_name hlist, Slot.required_operand hvalue]
  | listGet bind list index =>
    obtain _ | ⟨hbind, _ | ⟨hlist, _ | ⟨hindex, _ | _⟩⟩⟩ := h
    simp [op, ofFields?, Slot.optional_bind hbind, Slot.required_name hlist,
      Slot.required_index hindex]
  | indexOf bind collection key =>
    obtain _ | ⟨hbind, _ | ⟨hcollection, _ | ⟨hkey, _ | _⟩⟩⟩ := h
    simp [op, ofFields?, Slot.optional_bind hbind, Slot.required_name hcollection,
      Slot.required_operand hkey]
  | lengthOf bind collection =>
    obtain _ | ⟨hbind, _ | ⟨hcollection, _ | _⟩⟩ := h
    simp [op, ofFields?, Slot.optional_bind hbind, Slot.required_name hcollection]
  | print value =>
    obtain _ | ⟨hvalue, _ | _⟩ := h
    simp [op, ofFields?, Slot.required_operand hvalue]
  | release name deep =>
    obtain _ | ⟨hname, _ | ⟨hdeep, _ | _⟩⟩ := h
    simp [op, ofFields?, Slot.required_name hname, Slot.defaulted_deep hdeep]

/-- The names of the fields are those of the step. -/
theorem map_fst_of_says {fields : List (String × Option Json)} {slots : List (String × Slot)}
    (h : List.Forall₂ (fun slot field => field.1 = slot.1 ∧ slot.2.Says field.2) slots fields) :
    fields.map Prod.fst = slots.map Prod.fst := by
  induction h with
  | nil => rfl
  | cons h _ ih => rw [List.map_cons, List.map_cons, h.1, ih]

/-- What the step does and the fields that go with it are found wherever they stand. -/
theorem fields?_of_describes (h : s.Describes v) : ∃ xs, fields? v = some (s.op, xs) ∧
    List.Forall₂ (fun slot x => Slot.Says slot.2 x) s.slots xs := by
  obtain ⟨fields, hsays, hgives⟩ := h
  -- The names in the object are those of the slots, with the one that tells the kind of step.
  have hnames := map_fst_of_says hsays
  have hnodup : ((("op", some (.text s.op)) :: fields).map Prod.fst).Nodup := by
    rw [List.map_cons, hnames]
    exact s.nodup_names
  obtain ⟨members, extra, rfl, hrest⟩ := id hgives
  -- First the kind is read, then the fields that this kind has.
  have hop : objectFields? ["op"] (members.map fun m => (some m.1, m.2)) =
      some ([("op", some (.text s.op))].map Prod.snd) :=
    objectFields?_of_gives hgives hnodup (by simp) rfl
  have hfields : objectFields? (s.slots.map Prod.fst) (members.map fun m => (some m.1, m.2)) =
      some (fields.map Prod.snd) :=
    objectFields?_of_gives hgives hnodup (List.subset_cons_self _ _) hnames
  refine ⟨fields.map Prod.snd, ?_, List.forall₂_map_right_iff.mpr ?_⟩
  case refine_2 => exact List.Forall₂.imp (fun _ _ h => h.2) hsays
  simp [ofMembers, fields?, hop, required, text?, text, fieldNames_op, hfields]

theorem Describes.small (h : s.Describes v) : v.Small 2 := by
  obtain ⟨fields, hsays, hgives⟩ := h
  refine small_of_gives hgives (List.forall_mem_cons.mpr ⟨?_, ?_⟩)
  · exact ((IsScalar.text _).small 1).forall_mem_some
  · exact forall_mem_of_forall₂ hsays fun _ _ h => Slot.small_of_says h.2

/-- **A value that describes a step is read as this step**, wherever it stands in the text, as long
as it is not too deep. -/
theorem ofJson?_of_describes (h : s.Describes v) {level : Nat} (hlevel : level + 2 ≤ depthLimit) :
    ofJson? level v = some s := by
  obtain ⟨xs, hfields, hsays⟩ := fields?_of_describes h
  rw [ofJson?, if_pos (h.small.isReadable hlevel), hfields]
  exact ofFields?_of_says hsays

/-- The numbers in the step have 64 bits at most. -/
def InRange (s : Step) : Prop :=
  ∀ slot ∈ s.slots, slot.2.InRange

instance : DecidablePred InRange := fun s =>
  inferInstanceAs (Decidable (∀ slot ∈ s.slots, slot.2.InRange))

theorem exists_describes (hs : s.InRange) : ∃ v, s.Describes v := by
  have hslots : ∀ slot ∈ s.slots, ∃ field : String × Option Json,
      field.1 = slot.1 ∧ slot.2.Says field.2 := fun slot hslot =>
    let ⟨x, hx⟩ := Slot.exists_says (hs slot hslot)
    ⟨(slot.1, x), rfl, hx⟩
  obtain ⟨fields, hfields⟩ := exists_forall₂ hslots
  obtain ⟨v, hv⟩ := exists_gives (("op", some (.text s.op)) :: fields)
  exact ⟨v, fields, hfields, hv⟩

end Step

/-! ## Blocks

  An object with a name and a list of steps. -/

namespace InitBlock

variable {b : InitBlock} {v : Json}

/-- A value that describes a block is read as this block. -/
theorem ofJson?_of_describes (h : b.Describes v) : ofJson? v = some b := by
  obtain ⟨steps, hsteps, hgives⟩ := h
  have hlist : list? (Step.ofJson? 4) steps = some b.steps :=
    hsteps.list? fun _ _ h => Step.ofJson?_of_describes h (by decide)
  have hfields : v.fields? ["name", "steps"] = some [some (.text b.name), some steps] :=
    fields?_of_gives hgives rfl (by decide)
  rw [ofJson?, hfields]
  simp [required, text?, text, hlist]

/-- A block is deeper than its steps by a list and an object. -/
theorem Describes.small (h : b.Describes v) : v.Small 4 := by
  obtain ⟨steps, hsteps, hgives⟩ := h
  refine small_of_gives hgives fun f hf => ?_
  rcases List.mem_pair.mp hf with rfl | rfl
  · exact ((IsScalar.text _).small 3).forall_mem_some
  · exact (hsteps.small fun _ _ h => h.small).forall_mem_some

/-- The numbers in the block have 64 bits at most. -/
def InRange (b : InitBlock) : Prop :=
  ∀ s ∈ b.steps, s.InRange

instance : DecidablePred InRange := fun b =>
  inferInstanceAs (Decidable (∀ s ∈ b.steps, s.InRange))

theorem exists_describes (hb : b.InRange) : ∃ v, b.Describes v := by
  obtain ⟨steps, hsteps⟩ := Lists.exists fun s hs => Step.exists_describes (hb s hs)
  obtain ⟨v, hv⟩ := exists_gives [("name", some (.text b.name)), ("steps", some steps)]
  exact ⟨v, steps, hsteps, hv⟩

end InitBlock

/-! ## Scripts

  An object with a list of blocks and a list of steps, and the main statement. -/

namespace Script

variable {s : Script} {v : Json}

/-- A value that describes a script is read as this script. -/
theorem ofJson?_of_describes (h : s.Describes v) : ofJson? v = some s := by
  obtain ⟨init, steps, hinit, hsteps, hgives⟩ := h
  have hblocks : defaulted [] (list? InitBlock.ofJson?) init = some s.init :=
    hinit.defaulted fun _ _ h => h.list? fun _ _ h => InitBlock.ofJson?_of_describes h
  have hlist : defaulted [] (list? (Step.ofJson? 2)) steps = some s.steps :=
    hsteps.defaulted fun _ _ h => h.list? fun _ _ h => Step.ofJson?_of_describes h (by decide)
  have hfields : v.fields? ["init", "steps"] = some [init, steps] :=
    fields?_of_gives hgives rfl (by decide)
  rw [ofJson?, hfields]
  simp [hblocks, hlist]

/-- No object describes two scripts. -/
theorem Describes.unique {s' : Script} (h : s.Describes v) (h' : s'.Describes v) : s = s' :=
  Option.some.inj ((ofJson?_of_describes h).symm.trans (ofJson?_of_describes h'))

/-- A script is deeper than its blocks by a list and an object. -/
theorem Describes.small (h : s.Describes v) : v.Small 6 := by
  obtain ⟨init, steps, hinit, hsteps, hgives⟩ := h
  refine small_of_gives hgives fun f hf => ?_
  rcases List.mem_pair.mp hf with rfl | rfl
  · exact hinit.small fun _ _ h => h.small fun _ _ h => h.small
  · exact hsteps.small fun _ _ h => (h.small fun _ _ h => h.small).mono (by decide)

/-- The numbers in the script have 64 bits at most. -/
def InRange (s : Script) : Prop :=
  (∀ b ∈ s.init, b.InRange) ∧ ∀ step ∈ s.steps, step.InRange

instance : DecidablePred InRange := fun s =>
  inferInstanceAs (Decidable ((∀ b ∈ s.init, b.InRange) ∧ ∀ step ∈ s.steps, step.InRange))

theorem exists_describes (hs : s.InRange) : ∃ v, s.Describes v := by
  obtain ⟨init, hinit⟩ := Lists.exists fun b hb => InitBlock.exists_describes (hs.1 b hb)
  obtain ⟨steps, hsteps⟩ := Lists.exists fun step h => Step.exists_describes (hs.2 step h)
  obtain ⟨v, hv⟩ := exists_gives [("init", some init), ("steps", some steps)]
  exact ⟨v, some init, some steps, .present hinit, .present hsteps, hv⟩

/-- **A script is read back from every text of every object that describes it.**  There are objects
that do, and each of them has a text. -/
theorem texts_read_back (hs : s.InRange) :
    (∃ v, s.Describes v) ∧ ∀ v, s.Describes v →
      v.HasText v.render ∧ ∀ t, v.HasText t → parse? t = some s := by
  refine ⟨exists_describes hs, fun v hv => ⟨hasText_render hv.small.1, fun t ht => ?_⟩⟩
  rw [parse?, parse?_of_hasText ht]
  exact ofJson?_of_describes hv

/-- With all members in reverse, `op` is the last; one step passes over a note, and the other does
not say that it has no name for its result. -/
theorem texts_read_back_reversed :
    parse? (Json.ofMembers [("steps", .array [
      .ofMembers [("note", .null), ("value", .ofMembers [("size", .int 3), ("var", .text "l")]),
        ("key", .int (-9223372036854775808)), ("map", .text "m"), ("op", .text "map_add")],
      .ofMembers [("index", .int 18446744073709551615), ("list", .text "l"),
        ("op", .text "list_get")]])]).render =
    some { steps := [.mapAdd "m" (.int Int64.minValue) (.var "l"),
      .listGet none "l" 18446744073709551615] } := by
  -- An operand with a member that means nothing.
  have hvar : (Operand.var "l").Describes
      (Json.ofMembers [("size", .int 3), ("var", .text "l")]) :=
    .var ⟨_, [("size", .int 3)], rfl, .swap _ _ _,
      List.forall_mem_singleton.mpr ⟨by simp, .int (by decide) (by decide)⟩⟩
  -- The first step, its members the wrong way round and one too many.
  have hmapAdd : (Step.mapAdd "m" (.int Int64.minValue) (.var "l")).Describes
      (Json.ofMembers [("note", .null),
        ("value", .ofMembers [("size", .int 3), ("var", .text "l")]),
        ("key", .int (-9223372036854775808)), ("map", .text "m"), ("op", .text "map_add")]) :=
    let fields : List (String × Option Json) := [("map", some (.text "m")),
      ("key", some (.int (-9223372036854775808))),
      ("value", some (.ofMembers [("size", .int 3), ("var", .text "l")]))]
    ⟨fields, .cons ⟨rfl, rfl⟩ (.cons ⟨rfl, _, .int _, rfl⟩ (.cons ⟨rfl, _, hvar, rfl⟩ .nil)), _,
      [("note", .null)], rfl,
      List.reverse_perm (given (("op", some (.text "map_add")) :: fields) ++ [("note", Json.null)]),
      List.forall_mem_singleton.mpr ⟨by simp [fields], .null⟩⟩
  -- The second, with a position that is the greatest 64-bit number.
  have hlistGet : (Step.listGet none "l" 18446744073709551615).Describes
      (Json.ofMembers [("index", .int 18446744073709551615), ("list", .text "l"),
        ("op", .text "list_get")]) :=
    let fields : List (String × Option Json) := [("let", none), ("list", some (.text "l")),
      ("index", some (.int 18446744073709551615))]
    ⟨fields, .cons ⟨rfl, .leftOut⟩ (.cons ⟨rfl, rfl⟩ (.cons ⟨rfl, _, ⟨rfl, by decide⟩, rfl⟩ .nil)),
      _, [], rfl, List.reverse_perm (given (("op", some (.text "list_get")) :: fields)), nofun⟩
  refine ((texts_read_back (by decide)).2 _ ?_).2 _ (hasText_render (by decide))
  exact ⟨none, _, .leftOut, .present ⟨_, rfl, .cons hmapAdd (.cons hlistGet .nil)⟩, _, [], rfl,
    .refl _, nofun⟩

end Script

end BoxRuntime
