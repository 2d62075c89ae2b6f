/-
  Records as JSON objects.

  An object may give the fields of a record in any order, leave out some of them, and have other
  members as well.  `Json.Gives v fields` says that the object `v` gives the named fields those
  values and, as far as they have none, leaves them out.  `Nullable` and `Omittable` say what a
  field that may be left out stands for.

  The main statement is that decoding finds the fields, whatever the order and whatever else there
  is (`fields?_of_gives`, and `objectFields?_of_gives` for some of them).  The crux is that a field
  is looked for by its name and must be found once: of the members with this name, which are the
  same in any order, there is one if the object gives the field and none if not
  (`valuesNamed_given`).
-/
import BoxRuntime.Proofs.Json.Grammar
import Mathlib.Data.List.Forall2

namespace BoxRuntime.Json

/-! ## Objects

  What an object gives, up to the order of its members and to members that nobody asks for. Then
  that each field is found, and that the object is within the reader's depth. -/

/-- A value without parts: null, a truth value, an integer of 64 bits or a string. -/
inductive IsScalar : Json → Prop
  | null : IsScalar .null
  | bool (b : Bool) : IsScalar (.bool b)
  | int {n : Int} (hlow : -(intBound : Int) ≤ n) (hhigh : n ≤ maxWord) : IsScalar (.int n)
  | text (t : String) : IsScalar (.text t)

/-- The members that some fields give, those that are left out being none. -/
def given (fields : List (String × Option Json)) : List (String × Json) :=
  fields.filterMap fun f => f.2.map fun v => (f.1, v)

/-- The value is an object that gives exactly these fields, in any order, besides any scalar members
of other names. -/
def Gives (v : Json) (fields : List (String × Option Json)) : Prop :=
  ∃ members extra : List (String × Json), v = .ofMembers members ∧
    members.Perm (given fields ++ extra) ∧
    ∀ m ∈ extra, m.1 ∉ fields.map Prod.fst ∧ IsScalar m.2

/-- Any fields are given by some object. -/
theorem exists_gives (fields : List (String × Option Json)) : ∃ v : Json, v.Gives fields :=
  ⟨_, given fields, [], rfl, by rw [List.append_nil], nofun⟩

/-! ### Finding fields -/

/-- The members with a given name, in an object whose members all have one. -/
def valuesNamed (name : String) (members : List (String × Json)) : List Json :=
  members.filterMap fun m => if m.1 = name then some m.2 else none

/-- An object made of named members has under a name what is given under it. -/
theorem valuesOf_ofMembers (name : String) (members : List (String × Json)) :
    valuesOf name (members.map fun m => (some m.1, m.2)) = valuesNamed name members := by
  simp [valuesOf, valuesNamed, List.filterMap_map]

/-- A name that is not given has no value. -/
theorem valuesNamed_eq_nil {name : String} {members : List (String × Json)}
    (h : ∀ m ∈ members, m.1 ≠ name) : valuesNamed name members = [] := by
  rw [valuesNamed, List.filterMap_eq_nil_iff]
  intro m hm
  rw [if_neg (h m hm)]

/-- What is given has the name of a field. -/
theorem name_of_mem_given {fields : List (String × Option Json)} {m : String × Json}
    (hm : m ∈ given fields) : m.1 ∈ fields.map Prod.fst := by
  obtain ⟨f, hf, hmap⟩ := List.mem_filterMap.mp hm
  obtain ⟨v, -, rfl⟩ := Option.map_eq_some_iff.mp hmap
  exact List.mem_map_of_mem hf

/-- Of the members that some fields give, those with the name of a field have its value. -/
theorem valuesNamed_given {fields : List (String × Option Json)} {name : String} {x : Option Json}
    (hnodup : (fields.map Prod.fst).Nodup) (hx : (name, x) ∈ fields) :
    valuesNamed name (given fields) = x.toList := by
  induction fields with
  | nil => exact absurd hx List.not_mem_nil
  | cons f fields ih =>
    obtain ⟨hnew, hnodup⟩ := List.nodup_cons.mp hnodup
    have hgiven : given (f :: fields) = (f.2.map fun v => (f.1, v)).toList ++ given fields := by
      obtain ⟨n, _ | v⟩ := f <;> rfl
    rw [hgiven, valuesNamed, List.filterMap_append]
    rcases List.mem_cons.mp hx with rfl | hx
    · -- the field is the first, and no other has its name
      have hnone : valuesNamed name (given fields) = [] :=
        valuesNamed_eq_nil fun m hm heq => hnew (heq ▸ name_of_mem_given hm)
      rw [valuesNamed] at hnone
      rw [hnone, List.append_nil]
      rcases x with _ | v <;> simp
    · have hne : f.1 ≠ name := fun heq => hnew (heq ▸ List.mem_map_of_mem (f := Prod.fst) hx)
      have hnone : valuesNamed name (f.2.map fun v => (f.1, v)).toList = [] := by
        obtain ⟨n, _ | v⟩ := f
        · rfl
        · exact valuesNamed_eq_nil fun m hm => by rw [List.mem_singleton.mp hm]; exact hne
      rw [valuesNamed] at hnone
      rw [hnone, List.nil_append]
      exact ih hnodup hx

/-- A field is read as the one value of its name, or as none. -/
theorem field?_of_values {members : List (Option String × Json)} {name : String} {x : Option Json}
    (h : valuesOf name members = x.toList) : field? members name = some x := by
  rw [field?, h]
  rcases x with _ | v <;> rfl

/-- Fields that are read one by one are read together. -/
theorem mapM_field? {members : List (Option String × Json)} {fields : List (String × Option Json)}
    (h : ∀ f ∈ fields, field? members f.1 = some f.2) :
    (fields.map Prod.fst).mapM (field? members) = some (fields.map Prod.snd) := by
  induction fields with
  | nil => rfl
  | cons f fields ih =>
    rw [List.forall_mem_cons] at h
    rw [List.map_cons, List.mapM_cons, h.1, ih h.2]
    rfl

/-- **Some of the fields that an object gives are found**, whatever the order of its members. -/
theorem objectFields?_of_gives {members : List (Option String × Json)}
    {fields sought : List (String × Option Json)} {names : List String}
    (h : Gives (.object members) fields) (hnodup : (fields.map Prod.fst).Nodup)
    (hsought : sought ⊆ fields) (hnames : sought.map Prod.fst = names) :
    objectFields? names members = some (sought.map Prod.snd) := by
  subst hnames
  obtain ⟨named, extra, hmembers, hperm, hextra⟩ := h
  obtain rfl : members = named.map fun m => (some m.1, m.2) := by
    -- The object is a permutation of what is given and of what is extra, under names that are no
    -- names of fields.
    simpa [ofMembers] using hmembers
  have hnames : (named.map fun m => (some m.1, m.2)).all (fun m => m.1.isSome) = true := by
    simp
  -- Names are asked for one by one.
  rw [objectFields?, if_pos hnames]
  refine mapM_field? fun f hf => field?_of_values ?_
  -- A member that is extra never has the name; one that is given has it once.
  have hnone : valuesNamed f.1 extra = [] := valuesNamed_eq_nil fun m hm heq =>
    (hextra m hm).1 (heq ▸ List.mem_map_of_mem (hsought hf))
  have hgiven := valuesNamed_given hnodup (x := f.2) (hsought hf)
  have hvalues : (valuesNamed f.1 named).Perm f.2.toList := by
    have hfilter := hperm.filterMap fun m => if m.1 = f.1 then some m.2 else none
    rw [List.filterMap_append] at hfilter
    rw [valuesNamed] at hnone hgiven ⊢
    rwa [hnone, hgiven, List.append_nil] at hfilter
  rw [valuesOf_ofMembers]
  -- So there is no value of that name, or exactly one, and a second one would be an error.
  rcases f with ⟨name, _ | v⟩
  · exact hvalues.eq_nil
  · exact hvalues.eq_singleton

/-- **The fields that an object gives are found.** -/
theorem fields?_of_gives {v : Json} {fields : List (String × Option Json)} {names : List String}
    (h : v.Gives fields) (hnames : fields.map Prod.fst = names) (hnodup : names.Nodup) :
    v.fields? names = some (fields.map Prod.snd) := by
  subst hnames
  obtain ⟨named, extra, rfl, hrest⟩ := h
  exact objectFields?_of_gives ⟨named, extra, rfl, hrest⟩ hnodup (List.Subset.refl _) rfl

/-! ### Their size -/

/-- The value is plain and nested at most so deep. -/
def Small (d : Nat) (v : Json) : Prop :=
  v.isPlain = true ∧ v.depth ≤ d

/-- A value without parts is small enough for any depth. -/
theorem IsScalar.small {v : Json} (h : IsScalar v) (d : Nat) : v.Small d := by
  cases h with
  | null => exact ⟨rfl, Nat.zero_le d⟩
  | bool b => exact ⟨rfl, Nat.zero_le d⟩
  | int hlow hhigh => exact ⟨by simp [isPlain, hlow, hhigh], Nat.zero_le d⟩
  | text t => exact ⟨rfl, Nat.zero_le d⟩

/-- More depth does no harm. -/
theorem Small.mono {v : Json} {d e : Nat} (h : v.Small d) (hde : d ≤ e) : v.Small e :=
  ⟨h.1, Nat.le_trans h.2 hde⟩

/-- What a field that is given holds is as small as its value. -/
theorem Small.forall_mem_some {v : Json} {d : Nat} (h : v.Small d) : ∀ w ∈ some v, w.Small d := by
  intro w hw
  obtain rfl := Option.some.inj hw
  exact h

mutual

/-- What the program writes is sound: it has no names that cannot be read. -/
theorem isSound_of_isPlain : ∀ v : Json, v.isPlain → v.isSound
  | .null, _ | .bool _, _ | .int _, _ => rfl
  | .real .., h => absurd h (by simp [isPlain])
  | .string _, h => h
  | .array vs, h => elementsSound_of_plain vs h
  | .object ms, h => membersSound_of_plain ms h

theorem elementsSound_of_plain : ∀ vs : List Json, elementsPlain vs → elementsSound vs
  | [], _ => rfl
  | v :: vs, h => by
    rw [elementsPlain, Bool.and_eq_true] at h
    rw [elementsSound, isSound_of_isPlain v h.1, elementsSound_of_plain vs h.2]
    rfl

theorem membersSound_of_plain : ∀ ms : List (Option String × Json), membersPlain ms →
    membersSound ms
  | [], _ => rfl
  | (k, v) :: ms, h => by
    rw [membersPlain, Bool.and_eq_true, Bool.and_eq_true] at h
    rw [membersSound, h.1.1, isSound_of_isPlain v h.1.2, membersSound_of_plain ms h.2]
    rfl

end

/-- A small value can be read whole. -/
theorem Small.isReadable {v : Json} {d level : Nat} (h : v.Small d) (hd : level + d ≤ depthLimit) :
    v.isReadable level := by
  have hdepth : level + v.depth ≤ depthLimit := Nat.le_trans (Nat.add_le_add_left h.2 level) hd
  rw [Json.isReadable, isSound_of_isPlain v h.1, decide_eq_true hdepth]
  rfl

/-- An array is one deeper than its elements. -/
theorem small_array {vs : List Json} {d : Nat} (h : ∀ v ∈ vs, v.Small d) :
    (array vs).Small (d + 1) := by
  have hall : elementsPlain vs = true ∧ elementDepth vs ≤ d := by
    induction vs with
    | nil => exact ⟨rfl, Nat.zero_le d⟩
    | cons v vs ih =>
      rw [List.forall_mem_cons] at h
      obtain ⟨hplain, hdepth⟩ := ih h.2
      exact ⟨by rw [elementsPlain, h.1.1, hplain]; rfl, Nat.max_le.mpr ⟨h.1.2, hdepth⟩⟩
  exact ⟨hall.1, Nat.succ_le_succ hall.2⟩

/-- An object is one deeper than its members. -/
theorem small_ofMembers {members : List (String × Json)} {d : Nat}
    (h : ∀ m ∈ members, m.2.Small d) : (ofMembers members).Small (d + 1) := by
  have hall : membersPlain (members.map fun m => (some m.1, m.2)) = true ∧
      memberDepth (members.map fun m => (some m.1, m.2)) ≤ d := by
    induction members with
    | nil => exact ⟨rfl, Nat.zero_le d⟩
    | cons m members ih =>
      rw [List.forall_mem_cons] at h
      obtain ⟨hplain, hdepth⟩ := ih h.2
      refine ⟨?_, Nat.max_le.mpr ⟨h.1.2, hdepth⟩⟩
      rw [List.map_cons, membersPlain, h.1.1, hplain]
      rfl
  exact ⟨hall.1, Nat.succ_le_succ hall.2⟩

/-- An object is as small as what it gives. -/
theorem small_of_gives {v : Json} {fields : List (String × Option Json)} {d : Nat}
    (h : v.Gives fields) (hfields : ∀ f ∈ fields, ∀ x ∈ f.2, Small d x) : v.Small (d + 1) := by
  obtain ⟨members, extra, rfl, hperm, hextra⟩ := h
  refine small_ofMembers fun m hm => ?_
  rcases List.mem_append.mp (hperm.mem_iff.mp hm) with hm | hm
  · obtain ⟨f, hf, hmap⟩ := List.mem_filterMap.mp hm
    obtain ⟨x, hx, rfl⟩ := Option.map_eq_some_iff.mp hmap
    exact hfields f hf x hx
  · exact (hextra m hm).2.small d

/-! ## Fields that may be left out

  A field may be missing, or be there as null, and both may or may not mean the default. These
  relations say which. -/

variable {α : Type}

/-- What a field may say that can be left out or null, where `R` is what its value may say. -/
inductive Nullable (R : α → Json → Prop) : Option α → Option Json → Prop
  | leftOut : Nullable R none none
  | null : Nullable R none (some .null)
  | present {a : α} {v : Json} (h : R a v) : Nullable R (some a) (some v)

/-- What a field may say that can be left out for its default. -/
inductive Omittable (R : α → Json → Prop) (default : α) : α → Option Json → Prop
  | leftOut : Omittable R default default none
  | present {a : α} {v : Json} (h : R a v) : Omittable R default a (some v)

/-- The array has a value for each element of a list. -/
def Lists (R : α → Json → Prop) (as : List α) (v : Json) : Prop :=
  ∃ vs, v = .array vs ∧ List.Forall₂ R as vs

variable {R : α → Json → Prop} {decode : Json → Option α}

/-- A field that is absent, null or given is read as what it says, as long as null says nothing
else. -/
theorem Nullable.optional {a : Option α} {x : Option Json} (h : Nullable R a x)
    (hR : ∀ a v, R a v → decode v = some a) (hnull : decode .null = none) :
    optional decode x = some a := by
  cases h with
  | leftOut => rfl
  | null => rfl
  | @present a v h =>
    have hv := hR a v h
    cases v with
    | null => rw [hnull] at hv; exact absurd hv nofun
    | _ => rw [Json.optional, hv] <;> simp

/-- What such a field holds is as small as what it may be given. -/
theorem Nullable.small {a : Option α} {x : Option Json} {d : Nat} (h : Nullable R a x)
    (hR : ∀ a v, R a v → v.Small d) : ∀ v ∈ x, v.Small d := by
  cases h with
  | leftOut => exact nofun
  | null => exact (IsScalar.null.small d).forall_mem_some
  | present h => exact (hR _ _ h).forall_mem_some

theorem Nullable.exists {a : Option α} (hR : ∀ b ∈ a, ∃ v, R b v) : ∃ x, Nullable R a x := by
  rcases a with _ | a
  · exact ⟨none, .leftOut⟩
  · obtain ⟨v, hv⟩ := hR a rfl
    exact ⟨some v, .present hv⟩

/-- What a field with a default holds is as small as what it may be given. -/
theorem Omittable.small {default a : α} {x : Option Json} {d : Nat} (h : Omittable R default a x)
    (hR : ∀ a v, R a v → v.Small d) : ∀ v ∈ x, v.Small d := by
  cases h with
  | leftOut => exact nofun
  | present h => exact (hR _ _ h).forall_mem_some

/-- A field with a default is read as what it says, or as the default. -/
theorem Omittable.defaulted {default a : α} {x : Option Json} (h : Omittable R default a x)
    (hR : ∀ a v, R a v → decode v = some a) : defaulted default decode x = some a := by
  cases h with
  | leftOut => rfl
  | present h => exact hR _ _ h

/-- A list is read element by element. -/
theorem Lists.list? {as : List α} {v : Json} (h : Lists R as v)
    (hR : ∀ a v, R a v → decode v = some a) : list? decode v = some as := by
  obtain ⟨vs, rfl, h⟩ := h
  rw [Json.list?]
  induction h with
  | nil => rfl
  | cons h _ ih =>
    rw [List.mapM_cons, hR _ _ h, ih]
    rfl

/-- What is related to something has what all such things have. -/
theorem forall_mem_of_forall₂ {β γ : Type} {S : β → γ → Prop} {P : γ → Prop} {bs : List β}
    {cs : List γ} (h : List.Forall₂ S bs cs) (hP : ∀ b c, S b c → P c) : ∀ c ∈ cs, P c := by
  induction h with
  | nil => exact List.forall_mem_nil _
  | cons h _ ih => exact List.forall_mem_cons.mpr ⟨hP _ _ h, ih⟩

/-- If each of some things has a partner, they have a list of partners. -/
theorem exists_forall₂ {β γ : Type} {S : β → γ → Prop} {bs : List β} (h : ∀ b ∈ bs, ∃ c, S b c) :
    ∃ cs, List.Forall₂ S bs cs := by
  induction bs with
  | nil => exact ⟨[], .nil⟩
  | cons b bs ih =>
    rw [List.forall_mem_cons] at h
    obtain ⟨c, hc⟩ := h.1
    obtain ⟨cs, hcs⟩ := ih h.2
    exact ⟨c :: cs, .cons hc hcs⟩

/-- A list is one deeper than its elements. -/
theorem Lists.small {as : List α} {v : Json} {d : Nat} (h : Lists R as v)
    (hR : ∀ a v, R a v → v.Small d) : v.Small (d + 1) := by
  obtain ⟨vs, rfl, h⟩ := h
  exact small_array (forall_mem_of_forall₂ h hR)

/-- There is a way to say a list if there is one to say each of its elements. -/
theorem Lists.exists {as : List α} (hR : ∀ a ∈ as, ∃ v, R a v) : ∃ v, Lists R as v := by
  obtain ⟨vs, h⟩ := exists_forall₂ hR
  exact ⟨.array vs, vs, rfl, h⟩

end BoxRuntime.Json
