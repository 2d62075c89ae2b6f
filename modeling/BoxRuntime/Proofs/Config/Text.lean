/-
  Configurations as text.

  A text needs to say of a configuration only what differs from the default.  `ConfigGiven` is what
  an object says, field by field, at both levels, and `ConfigGiven.appliedTo` puts it in the place
  of what a configuration has.  The main statement (`RuntimeConfig.text_account`) is that every text
  of such an object is read as the default with these fields replaced, that a configuration is read
  back from what is printed of it, and that this holds of the configurations that were read as well.

  What is printed is an object that gives everything, so that printing needs no proof of its own:
  the account rests on one lemma about objects for each of the three records.
-/
import BoxRuntime.Config.Text
import BoxRuntime.Proofs.Json.Reading
import BoxRuntime.Proofs.Json.Records

namespace BoxRuntime

open Json

/-! ## What an object says

  For each record: the fields that an object gives, what the default becomes by them, and that
  decoding finds just this. -/

/-- What an object may say of the switches. -/
structure SwitchesGiven where
  traceBoxes : Option Bool := none
  traceSplits : Option Bool := none

/-- What an object may say of lists. -/
structure ListGiven where
  defaultSizeHint : Option Nat := none

/-- What an object may say of a configuration: nothing of a part, or some of its fields. -/
structure ConfigGiven where
  debug : Option SwitchesGiven := none
  list : Option ListGiven := none

namespace SwitchesGiven

/-- The switches with the given ones replaced. -/
def appliedTo (g : SwitchesGiven) (s : DebugSwitches) : DebugSwitches where
  traceBoxes := g.traceBoxes.getD s.traceBoxes
  traceSplits := g.traceSplits.getD s.traceSplits

/-- The object says just this of the switches. -/
def Describes (g : SwitchesGiven) (v : Json) : Prop :=
  v.Gives [("trace_boxes", g.traceBoxes.map .bool), ("trace_splits", g.traceSplits.map .bool)]

/-- An object that gives some of the switches is read as these over the defaults. -/
theorem ofJson?_of_describes {g : SwitchesGiven} {v : Json} (h : g.Describes v) :
    DebugSwitches.ofJson? v = some (g.appliedTo {}) := by
  have hfields : v.fields? ["trace_boxes", "trace_splits"] =
      some [g.traceBoxes.map .bool, g.traceSplits.map .bool] :=
    fields?_of_gives h rfl (by decide)
  rw [DebugSwitches.ofJson?, hfields]
  obtain ⟨_ | boxes, _ | splits⟩ := g <;> rfl

end SwitchesGiven

namespace ListGiven

/-- The defaults of lists with the given ones replaced. -/
def appliedTo (g : ListGiven) (l : ListDefaults) : ListDefaults where
  defaultSizeHint := g.defaultSizeHint.getD l.defaultSizeHint

/-- The object says just this of lists; a hint has at most 64 bits. -/
def Describes (g : ListGiven) (v : Json) : Prop :=
  v.Gives [("default_size_hint", g.defaultSizeHint.map fun n : Nat => .int n)] ∧
    ∀ n ∈ g.defaultSizeHint, n ≤ maxWord

/-- An object that gives the size hint, or does not, is read so. -/
theorem ofJson?_of_describes {g : ListGiven} {v : Json} (h : g.Describes v) :
    ListDefaults.ofJson? v = some (g.appliedTo {}) := by
  have hfields : v.fields? ["default_size_hint"] =
      some [g.defaultSizeHint.map fun n : Nat => .int n] :=
    fields?_of_gives h.1 rfl (by decide)
  rw [ListDefaults.ofJson?, hfields]
  obtain ⟨_ | hint⟩ := g
  · rfl
  · simp [appliedTo, defaulted, nat?]

end ListGiven

namespace ConfigGiven

/-- The configuration with the given fields replaced. -/
def appliedTo (g : ConfigGiven) (c : RuntimeConfig) : RuntimeConfig where
  debug := g.debug.elim c.debug fun d => d.appliedTo c.debug
  list := g.list.elim c.list fun l => l.appliedTo c.list

/-- The object says just this of a configuration. -/
def Describes (g : ConfigGiven) (v : Json) : Prop :=
  ∃ debug list : Option Json, Option.Rel SwitchesGiven.Describes g.debug debug ∧
    Option.Rel ListGiven.Describes g.list list ∧ v.Gives [("debug", debug), ("list", list)]

/-- The two parts of a configuration are read independently, each over its own defaults. -/
theorem ofJson?_of_describes {g : ConfigGiven} {v : Json} (h : g.Describes v) :
    RuntimeConfig.ofJson? v = some (g.appliedTo {}) := by
  obtain ⟨debug, list, hdebug, hlist, hgives⟩ := h
  obtain ⟨switches, lists⟩ := g
  -- Each half is read by itself; a half that is not given is the default one.
  have hswitches : defaulted {} DebugSwitches.ofJson? debug =
      some (appliedTo ⟨switches, lists⟩ {}).debug := by
    cases hdebug with
    | none => rfl
    | some h => exact SwitchesGiven.ofJson?_of_describes h
  have hdefaults : defaulted {} ListDefaults.ofJson? list =
      some (appliedTo ⟨switches, lists⟩ {}).list := by
    cases hlist with
    | none => rfl
    | some h => exact ListGiven.ofJson?_of_describes h
  -- What remains is that the object has the two members, wherever they stand.
  have hfields : v.fields? ["debug", "list"] = some [debug, list] :=
    fields?_of_gives hgives rfl (by decide)
  rw [RuntimeConfig.ofJson?, hfields]
  simp [hswitches, hdefaults]

end ConfigGiven

/-! ## What is printed

  Printing gives every field, so it is the special case in which nothing of the default is left. -/

namespace RuntimeConfig

/-- The numbers in the configuration have at most 64 bits. -/
def InRange (c : RuntimeConfig) : Prop :=
  c.list.defaultSizeHint ≤ maxWord

/-- All there is to say of a configuration. -/
def given (c : RuntimeConfig) : ConfigGiven where
  debug := some { traceBoxes := some c.debug.traceBoxes, traceSplits := some c.debug.traceSplits }
  list := some { defaultSizeHint := some c.list.defaultSizeHint }

/-- A configuration that gives every field overrides all defaults. -/
theorem given_appliedTo (c d : RuntimeConfig) : c.given.appliedTo d = c :=
  rfl

/-- What is printed of a configuration says everything. -/
theorem describes_toJson {c : RuntimeConfig} (hc : c.InRange) : c.given.Describes c.toJson := by
  refine ⟨some c.debug.toJson, some c.list.toJson, .some ?_, .some ⟨?_, ?_⟩, ?_⟩
  · exact ⟨_, [], rfl, .refl _, nofun⟩
  · exact ⟨_, [], rfl, .refl _, nofun⟩
  · intro n hn
    obtain rfl : c.list.defaultSizeHint = n := Option.some.inj hn
    exact hc
  · exact ⟨_, [], rfl, .refl _, nofun⟩

/-- A configuration with a 64-bit hint is made of plain values, so its text is readable. -/
theorem isPlain_toJson {c : RuntimeConfig} (hc : c.InRange) : c.toJson.isPlain := by
  have hlow : -(intBound : Int) ≤ c.list.defaultSizeHint := by omega
  have hhigh : (c.list.defaultSizeHint : Int) ≤ maxWord := Int.ofNat_le.mpr hc
  simp [toJson, DebugSwitches.toJson, ListDefaults.toJson, ofMembers, isPlain, membersPlain, hlow,
    hhigh]

/-- **Any text of an object that describes a configuration is read as this configuration**, whatever
else the object holds. -/
theorem parse?_of_describes {g : ConfigGiven} {v : Json} {t : String} (hv : g.Describes v)
    (ht : v.HasText t) : parse? t = some (g.appliedTo {}) := by
  rw [parse?, parse?_of_hasText ht]
  exact ConfigGiven.ofJson?_of_describes hv

/-- The text that is written for a configuration is one such text. -/
theorem parse?_toJson {c : RuntimeConfig} (hc : c.InRange) : parse? c.toJson.render = some c := by
  rw [parse?_of_describes (describes_toJson hc) (hasText_render (isPlain_toJson hc)),
    given_appliedTo]

/-- What is read is in range, as the default is. -/
theorem inRange_appliedTo {g : ConfigGiven} {v : Json} (hv : g.Describes v) :
    (g.appliedTo {}).InRange := by
  obtain ⟨debug, list, -, hlist, -⟩ := hv
  obtain ⟨switches, lists⟩ := g
  cases hlist with
  | none => exact Nat.zero_le _
  | @some l v h =>
    obtain ⟨_ | n⟩ := l
    · exact Nat.zero_le _
    · exact h.2 n rfl

/-- **A configuration is read back from what is printed of it.  An object that gives some of the
fields, at either level and in any order, is read from every text of it as the default with exactly
these fields replaced, and the result is read back from what is printed of it.** -/
theorem text_account {c : RuntimeConfig} (hc : c.InRange) {g : ConfigGiven} {v : Json} {t : String}
    (hv : g.Describes v) (ht : v.HasText t) :
    parse? c.toJson.render = some c ∧ parse? t = some (g.appliedTo {}) ∧
      parse? (g.appliedTo {}).toJson.render = some (g.appliedTo {}) :=
  ⟨parse?_toJson hc, parse?_of_describes hv ht, parse?_toJson (inRange_appliedTo hv)⟩

/-- An object that gives one switch, after other members at both levels, and a hint that no double
holds. -/
theorem text_account_one_switch :
    parse? (toJson { list := { defaultSizeHint := 18446744073709551615 } }).render =
        some { list := { defaultSizeHint := 18446744073709551615 } } ∧
      parse? (Json.ofMembers [("level", .text "high"),
        ("debug", .ofMembers [("note", .null), ("trace_splits", .bool true)])]).render =
        some { debug := { traceSplits := true } } ∧
      parse? (toJson { debug := { traceSplits := true } }).render =
        some { debug := { traceSplits := true } } := by
  -- The text has a member more at both levels, and at each level it comes first.
  have hdebug : SwitchesGiven.Describes { traceSplits := some true }
      (Json.ofMembers [("note", .null), ("trace_splits", .bool true)]) :=
    ⟨_, [("note", .null)], rfl, .swap _ _ _, List.forall_mem_singleton.mpr ⟨by simp, .null⟩⟩
  have hgiven : ConfigGiven.Describes { debug := some { traceSplits := some true } }
      (Json.ofMembers [("level", .text "high"),
        ("debug", .ofMembers [("note", .null), ("trace_splits", .bool true)])]) :=
    ⟨_, none, .some hdebug, .none, _, [("level", .text "high")], rfl, .swap _ _ _,
      List.forall_mem_singleton.mpr ⟨by simp, .text "high"⟩⟩
  have hrange : InRange { list := { defaultSizeHint := 18446744073709551615 } } := by
    rw [InRange]
    decide
  exact text_account hrange hgiven (hasText_render (by decide))

end RuntimeConfig

end BoxRuntime
