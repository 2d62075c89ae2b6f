/-
  The two gates of the log.

  A record of the machine passes two gates before it is seen: the level of the machine's logger, and
  the filter of the command line, which has a level for each component.  The levels of the one are
  ordered by gravity, those of the other by how much they let through.

  `Options.gates_account` says what the options make of both.  The filter has for each component the
  level of its last override, and judges a record by the component whose target its own target
  begins with.  The logger lets through all that the filter does, so that no override is silent, and
  nothing that is not within the global level or that of some component.

  Two facts carry this.  No known target is the beginning of another, so that at most one of them is
  at the beginning of a text (`knownTarget_unique`).  And the filter has one level for each
  component that has any (`Distinct`), so that the levels it holds are the levels in force.
-/
import BoxRuntime.Cli.Run
import BoxRuntime.Names

namespace BoxRuntime.Cli

/-! ## Levels

  Both kinds of levels are few, so their laws are tables; what is shown here is that the one order
  is the other under `loggerLevel`. -/

namespace Verbosity

theorem atMost_refl (v : Verbosity) : v.atMost v = true :=
  decide_eq_true (Nat.le_refl _)

/-- The order of the levels is transitive, and `max` is its join. -/
theorem atMost_trans {u v w : Verbosity} (huv : u.atMost v = true) (hvw : v.atMost w = true) :
    u.atMost w = true := by
  simp only [atMost, decide_eq_true_eq] at *
  exact Nat.le_trans huv hvw

theorem atMost_max_left (v w : Verbosity) : v.atMost (v.max w) = true := by
  unfold max
  split
  · assumption
  · exact v.atMost_refl

theorem atMost_max_right (v w : Verbosity) : w.atMost (v.max w) = true := by
  unfold max
  split
  · exact w.atMost_refl
  · rename_i hnot
    simp only [atMost, decide_eq_true_eq] at *
    omega

theorem max_eq_or (v w : Verbosity) : v.max w = v ∨ v.max w = w := by
  unfold max
  split
  · exact .inr rfl
  · exact .inl rfl

/-- The order of the logger's levels is the reverse of this one. -/
theorem atLeast_loggerLevel (l : Level) (v : Verbosity) :
    l.atLeast v.loggerLevel = (ofRecord l).atMost v := by
  cases l <;> cases v <;> rfl

/-- The translation into a level of the logger keeps the name. -/
theorem name_loggerLevel (v : Verbosity) : v.loggerLevel.name = v.name := by
  cases v <;> rfl

end Verbosity

/-! ## The levels of a filter

  Setting an override replaces the one that the component had, and only fills the gap where it is
  done by default. Neither touches the global level. -/

namespace Filter

variable {f : Filter} {c c' : Component} {v : Verbosity}

/-- A level that is set for a component is found for this component, and no other is touched. -/
theorem override?_set (f : Filter) (c c' : Component) (v : Verbosity) :
    (f.set c v).override? c' = if c' = c then some v else f.override? c' := by
  rw [override?, set, List.lookup_cons]
  by_cases hc : c' = c
  · simp [hc]
  · have hne : (c' == c) = false := by simpa using hc
    rw [if_neg hc, hne]
    exact Names.lookup_filter_ne hc

/-- A default is found only where no level was set before. -/
theorem override?_setIfUnset (f : Filter) (c c' : Component) (v : Verbosity) :
    (f.setIfUnset c v).override? c' =
      if c' = c then some ((f.override? c).getD v) else f.override? c' := by
  rw [setIfUnset]
  rcases hset : f.override? c with _ | w
  · exact override?_set f c c' v
  · by_cases hc : c' = c
    · simp [hc, hset]
    · simp [hc]

@[simp] theorem global_setIfUnset (f : Filter) (c : Component) (v : Verbosity) :
    (f.setIfUnset c v).global = f.global := by
  unfold setIfUnset
  split <;> rfl

/-- Setting levels one after the other leaves the last one of each component. -/
theorem override?_foldl_set (f : Filter) (ps : List (Component × Verbosity)) (c : Component) :
    (ps.foldl (fun f p => f.set p.1 p.2) f).override? c =
      (ps.reverse.lookup c).or (f.override? c) := by
  induction ps generalizing f with
  | nil => rfl
  | cons p ps ih =>
    obtain ⟨c', v⟩ := p
    rw [List.foldl_cons, ih, override?_set, List.reverse_cons, List.lookup_append, Option.or_assoc,
      List.lookup_cons]
    by_cases hc : c = c'
    · simp [hc]
    · have hne : (c == c') = false := by simpa using hc
      simp [hc, hne]

/-- Overrides are of components; the global level stays. -/
theorem global_foldl_set (f : Filter) (ps : List (Component × Verbosity)) :
    (ps.foldl (fun f p => f.set p.1 p.2) f).global = f.global := by
  induction ps generalizing f with
  | nil => rfl
  | cons p ps ih => exact ih (f.set p.1 p.2)

/-! ### One level for each component -/

/-- No component has two levels. -/
def Distinct (f : Filter) : Prop :=
  (f.components.map Prod.fst).Nodup

/-- The level that a component had before is taken out when it gets a new one. -/
theorem Distinct.set (h : f.Distinct) (c : Component) (v : Verbosity) : (f.set c v).Distinct := by
  have hrest : ((f.components.filter fun p => p.1 != c).map Prod.fst).Sublist
      (f.components.map Prod.fst) := List.filter_sublist.map _
  refine List.nodup_cons.mpr ⟨fun hmem => ?_, h.sublist hrest⟩
  obtain ⟨p, hp, hc⟩ := List.mem_map.mp hmem
  simpa [hc] using (List.mem_filter.mp hp).2

/-- A default is set where there is no level, so it is no second one. -/
theorem Distinct.setIfUnset (h : f.Distinct) (c : Component) (v : Verbosity) :
    (f.setIfUnset c v).Distinct := by
  unfold Filter.setIfUnset
  split
  · exact h
  · exact h.set c v

theorem Distinct.foldl_set (h : f.Distinct) (ps : List (Component × Verbosity)) :
    (ps.foldl (fun f p => f.set p.1 p.2) f).Distinct := by
  induction ps generalizing f with
  | nil => exact h
  | cons p ps ih => exact ih (h.set p.1 p.2)

/-- The levels that a filter holds are in force. -/
theorem Distinct.levelFor_of_mem (h : f.Distinct) (hv : (c, v) ∈ f.components) :
    f.levelFor c = v := by
  have hlookup : f.components.lookup c = some v := by
    obtain ⟨before, after, heq⟩ := List.append_of_mem hv
    refine List.lookup_eq_some_iff.mpr ⟨before, after, heq, fun p hp => ?_⟩
    rw [Distinct, heq, List.map_append, List.map_cons, List.nodup_append] at h
    have hne := h.2.2 p.1 (List.mem_map_of_mem hp) c List.mem_cons_self
    simpa using fun heq => hne heq.symm
  rw [levelFor, override?, hlookup]
  rfl

/-- The level in force is the global one, or one that the filter holds. -/
theorem levelFor_eq_global_or (f : Filter) (c : Component) :
    f.levelFor c = f.global ∨ (c, f.levelFor c) ∈ f.components := by
  rw [levelFor, override?]
  rcases hlookup : f.components.lookup c with _ | v
  · exact .inl rfl
  · obtain ⟨before, after, heq, -⟩ := List.lookup_eq_some_iff.mp hlookup
    refine .inr ?_
    rw [heq]
    exact List.mem_append_right _ List.mem_cons_self

/-! ### The most talkative level -/

/-- The greatest of a level and those of some components is one of them, and none is greater. -/
theorem foldl_max (ps : List (Component × Verbosity)) (v : Verbosity) :
    let m := ps.foldl (fun l p => l.max p.2) v
    v.atMost m = true ∧ (∀ p ∈ ps, p.2.atMost m = true) ∧ (m = v ∨ ∃ p ∈ ps, m = p.2) := by
  -- On the pairs, for any start: the fold goes on from the greater of the start and the first.
  induction ps generalizing v with
  | nil => exact ⟨v.atMost_refl, List.forall_mem_nil _, .inl rfl⟩
  | cons p ps ih =>
    obtain ⟨hstart, hrest, hone⟩ := ih (v.max p.2)
    refine ⟨Verbosity.atMost_trans (v.atMost_max_left p.2) hstart, ?_, ?_⟩
    · exact List.forall_mem_cons.mpr
        ⟨Verbosity.atMost_trans (v.atMost_max_right p.2) hstart, hrest⟩
    · -- The maximum is the new start or comes later, and the new start is one of two.
      rcases hone with hone | ⟨q, hq, hone⟩
      · rcases v.max_eq_or p.2 with hmax | hmax
        · exact .inl (hone.trans hmax)
        · exact .inr ⟨p, List.mem_cons_self, hone.trans hmax⟩
      · exact .inr ⟨q, List.mem_cons_of_mem p hq, hone⟩

/-- The most talkative level lets through all that the global one does. -/
theorem global_atMost_mostVerbose (f : Filter) : f.global.atMost f.mostVerbose = true :=
  (foldl_max f.components f.global).1

/-- It lets through all that the level of any component does. -/
theorem levelFor_atMost_mostVerbose (f : Filter) (c : Component) :
    (f.levelFor c).atMost f.mostVerbose = true := by
  rcases f.levelFor_eq_global_or c with hglobal | hmem
  · rw [hglobal]
    exact f.global_atMost_mostVerbose
  · exact (foldl_max f.components f.global).2.1 _ hmem

/-- And it is in force somewhere: a filter that held a second level for some component could have it
as its most talkative one, with no record that it is for. -/
theorem Distinct.mostVerbose_eq (h : f.Distinct) :
    f.mostVerbose = f.global ∨ ∃ c, f.mostVerbose = f.levelFor c := by
  rcases (foldl_max f.components f.global).2.2 with hglobal | ⟨⟨c, v⟩, hmem, heq⟩
  · exact .inl hglobal
  · exact .inr ⟨c, heq.trans (h.levelFor_of_mem hmem).symm⟩

/-! ### Targets -/

/-- The targets that a filter knows. -/
def knownTargets : List String :=
  Component.all.map Component.target ++ [ownTarget]

/-- No known target is the beginning of another, so a text begins with one of them at most. -/
theorem knownTarget_unique {s a b : String} (ha : a ∈ knownTargets) (hb : b ∈ knownTargets)
    (hsa : beginsWith s a = true) (hsb : beginsWith s b = true) : a = b := by
  have hapart : ∀ a ∈ knownTargets, ∀ b ∈ knownTargets, beginsWith b a = true → a = b := by
    decide
  rw [beginsWith, List.isPrefixOf_iff_prefix] at hsa hsb
  rcases List.prefix_or_prefix_of_prefix hsa hsb with hab | hba
  · exact hapart a ha b hb (List.isPrefixOf_iff_prefix.mpr hab)
  · exact (hapart b hb a ha (List.isPrefixOf_iff_prefix.mpr hba)).symm

/-- Every component has a known target. -/
theorem target_mem_knownTargets (c : Component) : c.target ∈ knownTargets := by
  cases c <;> decide

/-- A text that begins with the target of a component is judged by the level of that component. -/
theorem levelAt_of_beginsWith {s : String} (hs : beginsWith s c.target = true) :
    f.levelAt s = f.levelFor c := by
  have hother : ∀ t ∈ knownTargets, t ≠ c.target → beginsWith s t = false := by
    intro t ht hne
    rw [← Bool.not_eq_true]
    exact fun hst => hne (knownTarget_unique ht (target_mem_knownTargets c) hst hs)
  have hfound : (f.directives.filter fun d => beginsWith s d.1) = [(c.target, f.levelFor c)] := by
    simp only [knownTargets, Component.all, List.map_cons, List.map_nil, List.cons_append,
      List.nil_append, List.forall_mem_cons] at hother
    cases c <;> simp_all [directives, Component.all, Component.target, ownTarget]
  rw [levelAt, hfound]
  rfl

/-- Any other text is judged by the global level. -/
theorem levelAt_of_not_beginsWith {s : String} (hs : ∀ c : Component, beginsWith s c.target = false) :
    f.levelAt s = f.global := by
  have hnone : ((Component.all.map fun c => (c.target, f.levelFor c)).filter
      fun d => beginsWith s d.1) = [] := by
    rw [List.filter_eq_nil_iff]
    intro d hd
    obtain ⟨c, -, rfl⟩ := List.mem_map.mp hd
    simp [hs c]
  rw [levelAt, directives, List.filter_append, hnone, List.nil_append]
  rcases hown : beginsWith s ownTarget with _ | _ <;> simp [hown, longer]

/-- Whatever the target, the level in force is one of those that the filter holds. -/
theorem levelAt_atMost_mostVerbose (f : Filter) (s : String) :
    (f.levelAt s).atMost f.mostVerbose = true := by
  by_cases hs : ∃ c : Component, beginsWith s c.target = true
  · obtain ⟨c, hc⟩ := hs
    rw [levelAt_of_beginsWith hc]
    exact f.levelFor_atMost_mostVerbose c
  · have hnone : ∀ c : Component, beginsWith s c.target = false := by
      simpa using hs
    rw [levelAt_of_not_beginsWith hnone]
    exact f.global_atMost_mostVerbose

end Filter

/-! ## What the options make of them

  Overrides in the order in which they were given, then the defaults of debugging, and the logger
  at the most talkative of all levels in force. -/

namespace Options

/-- The level that the options set for a component: that of its last override, else for debugging
everything about boxes and the splits of chunks, else the global level. -/
def levelOf (o : Options) (c : Component) : Verbosity :=
  (o.overrides.reverse.lookup c).getD
    (match o.debug, c with
    | true, .box => .trace
    | true, .tree => .debug
    | _, _ => o.level)

/-- The filter that the options make has the levels that the options mean: the last override of a
component hides those before, and the defaults for debugging come after all overrides. -/
theorem levelFor_filter (o : Options) (c : Component) : o.filter.levelFor c = o.levelOf c := by
  -- Setting overrides one after another, the last for a component is the one that counts.
  have hset : ∀ c, (o.overrides.foldl (fun (f : Filter) p => f.set p.1 p.2)
      { global := o.level }).override? c = o.overrides.reverse.lookup c := by
    intro c
    rw [Filter.override?_foldl_set]
    exact Option.or_none
  have hglobal := Filter.global_foldl_set { global := o.level } o.overrides
  unfold levelOf filter
  -- Debugging only fills in components that have no override, so the two cases agree on the rest.
  rcases o.debug with _ | _
  · rw [if_neg (by decide), Filter.levelFor, hset, hglobal]
  · rw [if_pos rfl, Filter.levelFor, Filter.withDebugDefaults]
    simp only [Filter.override?_setIfUnset, Filter.global_setIfUnset, hglobal, hset]
    rcases hlast : o.overrides.reverse.lookup c with _ | v
    · cases c <;> simp [hlast]
    · cases c <;> simp [hlast]

theorem global_filter (o : Options) : o.filter.global = o.level := by
  have hglobal := Filter.global_foldl_set { global := o.level } o.overrides
  rw [filter]
  split
  · rw [Filter.withDebugDefaults, Filter.global_setIfUnset, Filter.global_setIfUnset, hglobal]
  · exact hglobal

/-- It has one level at most for each component. -/
theorem distinct_filter (o : Options) : o.filter.Distinct := by
  have hnone : Filter.Distinct { global := o.level } := List.nodup_nil
  have hset := hnone.foldl_set o.overrides
  rw [filter]
  split
  · exact (hset.setIfUnset .box .trace).setIfUnset .tree .debug
  · exact hset

/-- The logger is set to the most talkative level of the filter. -/
theorem loggerLevel_setup (o : Options) (size : RingSize) :
    (o.setup size).logger.level = o.filter.mostVerbose.loggerLevel :=
  rfl

/-- A record passes the logger exactly when it is within the global level or the level of some
component.  The level of the logger does not occur here: neither does the translation into it. -/
theorem logger_enabled_iff (o : Options) (size : RingSize) (l : Level) :
    (o.setup size).logger.isEnabled l = true ↔
      (Verbosity.ofRecord l).atMost o.level = true ∨
        ∃ c, (Verbosity.ofRecord l).atMost (o.levelOf c) = true := by
  rw [Logger.isEnabled, o.loggerLevel_setup size, Verbosity.atLeast_loggerLevel]
  constructor
  · intro hwithin
    -- the most talkative level is one of those that are in force
    rcases o.distinct_filter.mostVerbose_eq with hglobal | ⟨c, hc⟩
    · rw [hglobal, o.global_filter] at hwithin
      exact .inl hwithin
    · rw [hc, o.levelFor_filter] at hwithin
      exact .inr ⟨c, hwithin⟩
  · rintro (hwithin | ⟨c, hwithin⟩)
    · rw [← o.global_filter] at hwithin
      exact Verbosity.atMost_trans hwithin o.filter.global_atMost_mostVerbose
    · rw [← o.levelFor_filter] at hwithin
      exact Verbosity.atMost_trans hwithin (o.filter.levelFor_atMost_mostVerbose c)

/-- What the options make of the two gates. -/
structure GatesAccount (o : Options) : Prop where
  /-- The level of a component is the one that was set last, or what the options set else. -/
  levelFor_eq : ∀ c, o.filter.levelFor c = o.levelOf c
  /-- A record with the target of a component, or one that begins with it, is judged by the level of
  this component. -/
  enabled_of_beginsWith : ∀ (c : Component) (target : String) (v : Verbosity),
    Filter.beginsWith target c.target = true →
      o.filter.enabled target v = v.atMost (o.levelOf c)
  /-- Any other record is judged by the global level. -/
  enabled_of_not_beginsWith : ∀ (target : String) (v : Verbosity),
    (∀ c : Component, Filter.beginsWith target c.target = false) →
      o.filter.enabled target v = v.atMost o.level
  /-- The logger holds back nothing that the filter lets through. -/
  logger_admits : ∀ (size : RingSize) (target : String) (l : Level),
    o.filter.enabled target (.ofRecord l) = true → (o.setup size).logger.isEnabled l = true
  /-- The logger is no more talkative than the most talkative level: what it takes is within the
  global level or the level of some component, and all of this it takes. -/
  logger_takes : ∀ (size : RingSize) (l : Level), (o.setup size).logger.isEnabled l = true ↔
    (Verbosity.ofRecord l).atMost o.level = true ∨
      ∃ c, (Verbosity.ofRecord l).atMost (o.levelOf c) = true
  /-- The logger is set to the greatest of the global level and those of the components, and by the
  name that this level has on the command line. -/
  logger_level : ∀ size : RingSize, ∃ v : Verbosity,
    (o.setup size).logger.level = v.loggerLevel ∧ (o.setup size).logger.level.name = v.name ∧
      (v = o.level ∨ ∃ c, v = o.levelOf c) ∧ o.level.atMost v = true ∧
        ∀ c, (o.levelOf c).atMost v = true

/-- **The filter has for each component the level of its last override and judges a record by the
component that its target begins with.  The logger lets through all that the filter does, and
nothing that is not within the global level or that of some component.** -/
theorem gates_account (o : Options) : o.GatesAccount where
  levelFor_eq := o.levelFor_filter
  enabled_of_beginsWith c target v hs := by
    rw [Filter.enabled, Filter.levelAt_of_beginsWith hs, o.levelFor_filter]
  enabled_of_not_beginsWith target v hs := by
    rw [Filter.enabled, Filter.levelAt_of_not_beginsWith hs, o.global_filter]
  logger_admits size target l henabled := by
    -- The logger is set to the most verbose level, and no target is let more than that.
    rw [Logger.isEnabled, o.loggerLevel_setup size, Verbosity.atLeast_loggerLevel]
    exact Verbosity.atMost_trans henabled (o.filter.levelAt_atMost_mostVerbose target)
  logger_takes := o.logger_enabled_iff
  logger_level size := by
    refine ⟨o.filter.mostVerbose, o.loggerLevel_setup size, ?_, ?_, ?_, fun c => ?_⟩
    · rw [o.loggerLevel_setup size, Verbosity.name_loggerLevel]
    · -- The most verbose level belongs to someone: to all targets or to a component.
      rcases o.distinct_filter.mostVerbose_eq with hglobal | ⟨c, hc⟩
      · exact .inl (hglobal.trans o.global_filter)
      · exact .inr ⟨c, hc.trans (o.levelFor_filter c)⟩
    · rw [← o.global_filter]
      exact o.filter.global_atMost_mostVerbose
    · rw [← o.levelFor_filter]
      exact o.filter.levelFor_atMost_mostVerbose c

end Options

end BoxRuntime.Cli
