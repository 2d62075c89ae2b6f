/-
  What an action does, and what two actions do alike.

  An action works on a state and ends with a result or with an error; the state survives both.  A
  `Triple` says how one action ends, given what holds before; a `Match` says that two actions, which
  may work on different kinds of state, end in the same way, and how their ends are related.

  The rules are those of the ways to put actions together.  Nothing here is about the runtime.
-/

namespace BoxRuntime

section

variable {ε σ α β : Type}

/-! ## Running composed actions

  Equations for a bind and a map, by how the first action ended. -/

variable {x : EStateM ε σ α} {s s' : σ}

/-- An action that succeeds hands its result and its state on. -/
theorem run_bind {a : α} (h : x s = .ok a s') (k : α → EStateM ε σ β) :
    (x >>= k) s = k a s' := by
  show EStateM.bind x k s = _
  rw [EStateM.bind, h]

/-- One that fails ends both. -/
theorem run_bind_error {e : ε} (h : x s = .error e s') (k : α → EStateM ε σ β) :
    (x >>= k) s = .error e s' := by
  show EStateM.bind x k s = _
  rw [EStateM.bind, h]

/-- The state between two actions that complete. -/
theorem between_of_run {k : α → EStateM ε σ β} {b : β} (hrun : (x >>= k) s = .ok b s') :
    ∃ a mid, x s = .ok a mid ∧ k a mid = .ok b s' := by
  cases hx : x s with
  | ok a mid =>
    rw [run_bind hx] at hrun
    exact ⟨a, mid, rfl, hrun⟩
  | error e mid =>
    rw [run_bind_error hx] at hrun
    cases hrun

theorem run_map {a : α} (h : x s = .ok a s') (f : α → β) : (f <$> x) s = .ok (f a) s' := by
  show EStateM.map f x s = _
  rw [EStateM.map, h]

theorem run_map_error {e : ε} (h : x s = .error e s') (f : α → β) :
    (f <$> x) s = .error e s' := by
  show EStateM.map f x s = _
  rw [EStateM.map, h]

/-- The state that an action leaves, whether it failed or not. -/
def leftBy : EStateM.Result ε σ α → σ
  | .ok _ s => s
  | .error _ s => s

/-- The result and the state of an action that completes; of one that fails, the error alone. -/
def completed : EStateM.Result ε σ α → Except ε (α × σ)
  | .ok a s => .ok (a, s)
  | .error e _ => .error e

/-- What is completed is what succeeded, with its state. -/
theorem completed_eq_ok {r : EStateM.Result ε σ α} {a : α} {s : σ} :
    completed r = .ok (a, s) ↔ r = .ok a s := by
  cases r with
  | ok a' s' =>
    constructor
    · intro h
      obtain ⟨rfl, rfl⟩ := Prod.mk.inj (Except.ok.inj h)
      rfl
    · rintro h
      obtain ⟨rfl, rfl⟩ := EStateM.Result.ok.inj h
      rfl
  | error e s' => exact ⟨nofun, nofun⟩

/-- The end of an action with the result and the state read as others. -/
def mapResult {τ : Type} (f : α → β) (g : σ → τ) : EStateM.Result ε σ α → EStateM.Result ε τ β
  | .ok a s => .ok (f a) (g s)
  | .error e s => .error e (g s)

theorem completed_mapResult {τ : Type} (f : α → β) (g : σ → τ) (r : EStateM.Result ε σ α) :
    completed (mapResult f g r) = (completed r).map fun p => (f p.1, g p.2) := by
  cases r <;> rfl

/-- What each part does to the state, all of it does, if it passes from one to the next. -/
theorem leftBy_bind (R : σ → σ → Prop) (htrans : ∀ {s t u}, R s t → R t u → R s u)
    {k : α → EStateM ε σ β} (hx : ∀ s, R s (leftBy (x s))) (hk : ∀ a s, R s (leftBy (k a s)))
    (s : σ) : R s (leftBy ((x >>= k) s)) := by
  have hfirst := hx s
  cases hrun : x s with
  | ok a mid =>
    rw [hrun] at hfirst
    rw [run_bind hrun]
    exact htrans hfirst (hk a mid)
  | error e mid =>
    rw [hrun] at hfirst
    rw [run_bind_error hrun]
    exact hfirst

/-! ## One action

  Partial in the result and total in the state: something is said of the state that an error leaves
  as well. -/

/-- The end of an action is as wanted. -/
def Ends (Q : α → σ → Prop) (E : ε → σ → Prop) : EStateM.Result ε σ α → Prop
  | .ok a s => Q a s
  | .error e s => E e s

/-- From a state with `P` the action ends with a result and `Q`, or with an error and `E`. -/
def Triple (P : σ → Prop) (x : EStateM ε σ α) (Q : α → σ → Prop) (E : ε → σ → Prop) : Prop :=
  ∀ s, P s → Ends Q E (x s)

namespace Triple

variable {P P' : σ → Prop} {Q : α → σ → Prop} {R : β → σ → Prop} {E : ε → σ → Prop}

/-- From the end of the first action the second goes on. -/
theorem bind {k : α → EStateM ε σ β} (hx : Triple P x Q E) (hk : ∀ a, Triple (Q a) (k a) R E) :
    Triple P (x >>= k) R E := by
  intro s hs
  have hend := hx s hs
  -- only after a result does the second action run
  cases hrun : x s with
  | ok a s' =>
    rw [hrun] at hend
    rw [run_bind hrun]
    exact hk a s' hend
  | error e s' =>
    rw [hrun] at hend
    rw [run_bind_error hrun]
    exact hend

/-- The first state may be known to be more than is needed. -/
theorem before (h : Triple P x Q E) (hP : ∀ s, P' s → P s) : Triple P' x Q E :=
  fun s hs => h s (hP s hs)

end Triple

end

/-! ## Two actions

  The two states may be of different kinds. Both succeed or both fail, and a relation for each case
  says how the ends belong together. -/

section

variable {ε δ σ τ α β α' β' : Type}

/-- The ends of two actions are of the same kind, and related as wanted. -/
def BothEnd (Q : α → α' → σ → τ → Prop) (E : ε → δ → σ → τ → Prop) :
    EStateM.Result ε σ α → EStateM.Result δ τ α' → Prop
  | .ok a s, .ok a' t => Q a a' s t
  | .error e s, .error d t => E e d s t
  | _, _ => False

/-- From states related by `P` both actions end with results and `Q`, or both with errors and
`E`. -/
def Match (P : σ → τ → Prop) (x : EStateM ε σ α) (y : EStateM δ τ α')
    (Q : α → α' → σ → τ → Prop) (E : ε → δ → σ → τ → Prop) : Prop :=
  ∀ s t, P s t → BothEnd Q E (x s) (y t)

variable {P P' : σ → τ → Prop} {Q Q' : α → α' → σ → τ → Prop} {R : β → β' → σ → τ → Prop}
  {E E' : ε → δ → σ → τ → Prop}

/-- Both succeed, or both fail. -/
theorem both_end_iff {r : EStateM.Result ε σ α} {r' : EStateM.Result δ τ α'} :
    BothEnd Q E r r' ↔
      (∃ a s a' t, r = .ok a s ∧ r' = .ok a' t ∧ Q a a' s t) ∨
        ∃ e s d t, r = .error e s ∧ r' = .error d t ∧ E e d s t := by
  constructor
  · intro h
    -- ends of different kinds are never related
    cases r with
    | ok a s =>
      cases r' with
      | ok a' t => exact Or.inl ⟨a, s, a', t, rfl, rfl, h⟩
      | error d t => exact h.elim
    | error e s =>
      cases r' with
      | ok a' t => exact h.elim
      | error d t => exact Or.inr ⟨e, s, d, t, rfl, rfl, h⟩
  · rintro (⟨a, s, a', t, rfl, rfl, h⟩ | ⟨e, s, d, t, rfl, rfl, h⟩)
    · exact h
    · exact h

namespace Match

variable {x : EStateM ε σ α} {y : EStateM δ τ α'}

/-- From related ends of the first actions the second ones go on. -/
theorem bind {k : α → EStateM ε σ β} {l : α' → EStateM δ τ β'} (hx : Match P x y Q E)
    (hk : ∀ a a', Match (Q a a') (k a) (l a') R E) : Match P (x >>= k) (y >>= l) R E := by
  intro s t hst
  rcases both_end_iff.mp (hx s t hst) with
    ⟨a, s', a', t', hrun, hrun', hq⟩ | ⟨e, s', d, t', hrun, hrun', he⟩
  · rw [run_bind hrun, run_bind hrun']
    exact hk a a' s' t' hq
  · rw [run_bind_error hrun, run_bind_error hrun']
    exact he

/-- The second action may do something of its own first. -/
theorem bind_right {z : EStateM δ τ β'} {l : β' → EStateM δ τ α'} {M : β' → σ → τ → Prop}
    (hz : ∀ s t, P s t → ∃ b t', z t = .ok b t' ∧ M b s t')
    (hl : ∀ b, Match (M b) x (l b) Q E) : Match P x (z >>= l) Q E := by
  intro s t hst
  obtain ⟨b, t', hrun, hm⟩ := hz s t hst
  rw [run_bind hrun]
  exact hl b s t' hm

/-- The second action may do something of its own at the end. -/
theorem then_right {l : α' → EStateM δ τ β'} {R : α → β' → σ → τ → Prop} (hx : Match P x y Q E)
    (hl : ∀ a a' s t, Q a a' s t → ∃ b t', l a' t = .ok b t' ∧ R a b s t') :
    Match P x (y >>= l) R E := by
  intro s t hst
  rcases both_end_iff.mp (hx s t hst) with
    ⟨a, s', a', t', hrun, hrun', hq⟩ | ⟨e, s', d, t', hrun, hrun', he⟩
  · obtain ⟨b, t'', hlast, hr⟩ := hl a a' s' t' hq
    rw [hrun, run_bind hrun', hlast]
    exact hr
  · rw [hrun, run_bind_error hrun']
    exact he

/-- More may be known of the first states than is needed. -/
theorem before (h : Match P x y Q E) (hP : ∀ s t, P' s t → P s t) : Match P' x y Q E :=
  fun s t hst => h s t (hP s t hst)

/-- Less may be asked of the last ones. -/
theorem after (h : Match P x y Q E) (hQ : ∀ a a' s t, Q a a' s t → Q' a a' s t)
    (hE : ∀ e d s t, E e d s t → E' e d s t) : Match P x y Q' E' := by
  intro s t hst
  rcases both_end_iff.mp (h s t hst) with
    ⟨a, s', a', t', hrun, hrun', hq⟩ | ⟨e, s', d, t', hrun, hrun', he⟩
  · rw [hrun, hrun']
    exact hQ a a' s' t' hq
  · rw [hrun, hrun']
    exact hE e d s' t' he

/-- What is known of the first action by itself can be added. -/
theorem and {p : σ → Prop} {q : α → σ → Prop} {f : ε → σ → Prop} (h : Match P x y Q E)
    (hx : Triple p x q f) :
    Match (fun s t => p s ∧ P s t) x y (fun a a' s t => q a s ∧ Q a a' s t)
      (fun e d s t => f e s ∧ E e d s t) := by
  -- The first run is known from the triple, and how it goes with the second from the match.
  intro s t hst
  have hown := hx s hst.1
  rcases both_end_iff.mp (h s t hst.2) with
    ⟨a, s', a', t', hrun, hrun', hq⟩ | ⟨e, s', d, t', hrun, hrun', he⟩
  · rw [hrun] at hown ⊢
    rw [hrun']
    exact ⟨hown, hq⟩
  · rw [hrun] at hown ⊢
    rw [hrun']
    exact ⟨hown, he⟩

end Match

end

/-! ## Two actions that end alike

  A match of two actions on the same kind of state with equal results and equal errors. -/

section

variable {ε σ τ α β : Type}

/-- From related states both actions end with the same result or the same error, and in states that
are related again. -/
def Keeps (R : σ → τ → Prop) (x : EStateM ε σ α) (y : EStateM ε τ α) : Prop :=
  Match R x y (fun a a' s t => a' = a ∧ R s t) fun e e' s t => e' = e ∧ R s t

namespace Keeps

variable {R : σ → τ → Prop} {x : EStateM ε σ α} {y : EStateM ε τ α}

/-- Two actions that keep a relation give the same result, or fail in the same way. -/
theorem pure (a : α) : Keeps R (pure a : EStateM ε σ α) (pure a : EStateM ε τ α) :=
  fun _ _ h => ⟨rfl, h⟩

theorem throw (e : ε) : Keeps R (throw e : EStateM ε σ α) (throw e : EStateM ε τ α) :=
  fun _ _ h => ⟨rfl, h⟩

/-- Two that do, one after another, do. -/
theorem bind {k : α → EStateM ε σ β} {l : α → EStateM ε τ β} (hx : Keeps R x y)
    (hk : ∀ a, Keeps R (k a) (l a)) : Keeps R (x >>= k) (y >>= l) := by
  refine Match.bind hx fun a a' => ?_
  rintro s t ⟨rfl, h⟩
  exact hk a' s t h

/-- Two actions may look at their states first. -/
theorem get {k : σ → EStateM ε σ α} {l : τ → EStateM ε τ α}
    (hk : ∀ s t, R s t → Keeps R (k s) (l t)) : Keeps R (get >>= k) (get >>= l) :=
  fun s t h => hk s t h s t h

/-- A change of both states that keeps the relation. -/
theorem modify {f : σ → σ} {g : τ → τ} (hfg : ∀ s t, R s t → R (f s) (g t)) :
    Keeps R (modify f : EStateM ε σ PUnit) (modify g : EStateM ε τ PUnit) :=
  fun s t h => ⟨rfl, hfg s t h⟩

/-- A choice that both make in the same way. -/
theorem ite {x' : EStateM ε σ α} {y' : EStateM ε τ α} {p : Prop} [Decidable p]
    (hx : Keeps R x y) (hx' : Keeps R x' y') :
    Keeps R (if p then x else x') (if p then y else y') := by
  split
  · exact hx
  · exact hx'

end Keeps

end

end BoxRuntime
