import Credence.Error

/-!
# Running what may fail and changes a state

Deductions and the steps of a knowledge base keep the state that they have reached when they fail.
The run of such a computation is a function of the state, and the lemmas here say what sequencing,
failing and catching do to it.
-/

namespace Credence

variable {σ α β : Type}

/-- What a computation that may fail comes to, and the state after it. -/
def exec (x : ExceptT Error (StateM σ) α) (s : σ) : Except Error α × σ := x.run.run s

@[simp] theorem exec_pure (a : α) (s : σ) :
    exec (pure a : ExceptT Error (StateM σ) α) s = (.ok a, s) := rfl

@[simp] theorem exec_throw (e : Error) (s : σ) :
    exec (throw e : ExceptT Error (StateM σ) α) s = (.error e, s) := rfl

@[simp] theorem exec_get (s : σ) : exec (get : ExceptT Error (StateM σ) σ) s = (.ok s, s) := rfl

@[simp] theorem exec_set (s s' : σ) :
    exec (set s' : ExceptT Error (StateM σ) PUnit) s = (.ok ⟨⟩, s') := rfl

@[simp] theorem exec_modify (f : σ → σ) (s : σ) :
    exec (modify f : ExceptT Error (StateM σ) PUnit) s = (.ok ⟨⟩, f s) := rfl

/-- A failure ends a sequence where it happens. -/
theorem exec_bind (x : ExceptT Error (StateM σ) α) (f : α → ExceptT Error (StateM σ) β) (s : σ) :
    exec (x >>= f) s =
      match exec x s with
      | (.ok a, s') => exec (f a) s'
      | (.error e, s') => (.error e, s') := by
  show (x.run >>= ExceptT.bindCont f).run s = _
  rw [StateT.run_bind]
  unfold exec
  rcases x.run.run s with ⟨e | a, s'⟩ <;> rfl

theorem exec_bind_ok {x : ExceptT Error (StateM σ) α} {f : α → ExceptT Error (StateM σ) β}
    {s s' : σ} {a : α} (h : exec x s = (.ok a, s')) : exec (x >>= f) s = exec (f a) s' := by
  rw [exec_bind, h]

theorem exec_bind_error {x : ExceptT Error (StateM σ) α} {f : α → ExceptT Error (StateM σ) β}
    {s s' : σ} {e : Error} (h : exec x s = (.error e, s')) : exec (x >>= f) s = (.error e, s') := by
  rw [exec_bind, h]

/-- A sequence that succeeds has two halves that do. -/
theorem exists_of_exec_bind {x : ExceptT Error (StateM σ) α} {f : α → ExceptT Error (StateM σ) β}
    {s s'' : σ} {b : β} (h : exec (x >>= f) s = (.ok b, s'')) :
    ∃ a s', exec x s = (.ok a, s') ∧ exec (f a) s' = (.ok b, s'') := by
  rw [exec_bind] at h
  rcases hx : exec x s with ⟨e | a, s'⟩
  · rw [hx] at h
    nomatch h
  · rw [hx] at h
    exact ⟨a, s', rfl, h⟩

theorem exec_map (f : α → β) (x : ExceptT Error (StateM σ) α) (s : σ) :
    exec (f <$> x) s = ((exec x s).1.map f, (exec x s).2) := by
  rw [← bind_pure_comp, exec_bind]
  rcases exec x s with ⟨e | a, s'⟩ <;> rfl

theorem exists_of_exec_map {f : α → β} {x : ExceptT Error (StateM σ) α} {s s' : σ} {b : β}
    (h : exec (f <$> x) s = (.ok b, s')) : ∃ a, exec x s = (.ok a, s') ∧ f a = b := by
  rw [exec_map] at h
  rcases hx : exec x s with ⟨e | a, s₁⟩
  · rw [hx] at h
    nomatch h
  · rw [hx] at h
    cases h
    exact ⟨a, rfl, rfl⟩

theorem exec_tryCatch (x : ExceptT Error (StateM σ) α) (f : Error → ExceptT Error (StateM σ) α)
    (s : σ) :
    exec (tryCatch x f) s =
      match exec x s with
      | (.ok a, s') => (.ok a, s')
      | (.error e, s') => exec (f e) s' := by
  show (ExceptT.tryCatch x f).run.run s = _
  unfold exec ExceptT.tryCatch ExceptT.run
  rw [ExceptT.mk, StateT.run_bind]
  generalize StateT.run x s = run
  rcases run with ⟨e | a, s'⟩ <;> rfl

/-! ## What a computation preserves -/

/-- A computation preserves a property of the state, also if it fails. -/
def Preserves (P : σ → Prop) (x : ExceptT Error (StateM σ) α) : Prop := ∀ s, P s → P (exec x s).2

variable {P : σ → Prop}

theorem preserves_pure (a : α) : Preserves P (pure a : ExceptT Error (StateM σ) α) :=
  fun _ hs => hs

theorem preserves_throw (e : Error) : Preserves P (throw e : ExceptT Error (StateM σ) α) :=
  fun _ hs => hs

theorem preserves_ofExcept (x : Except Error α) :
    Preserves P (MonadExcept.ofExcept x : ExceptT Error (StateM σ) α) := by
  cases x with
  | error e => exact preserves_throw e
  | ok a => exact preserves_pure a

theorem preserves_set {s : σ} (hs : P s) :
    Preserves P (set s : ExceptT Error (StateM σ) PUnit) := fun _ _ => hs

theorem preserves_modify {f : σ → σ} (hf : ∀ s, P s → P (f s)) :
    Preserves P (modify f : ExceptT Error (StateM σ) PUnit) := hf

theorem preserves_bind {x : ExceptT Error (StateM σ) α} {f : α → ExceptT Error (StateM σ) β}
    (hx : Preserves P x) (hf : ∀ a, Preserves P (f a)) : Preserves P (x >>= f) := by
  intro s hs
  have hfirst := hx s hs
  rw [exec_bind]
  generalize exec x s = run at hfirst
  obtain ⟨outcome, s'⟩ := run
  cases outcome with
  | error e => exact hfirst
  | ok a => exact hf a s' hfirst

/-- What is read has the property. -/
theorem preserves_get_bind {f : σ → ExceptT Error (StateM σ) α}
    (hf : ∀ s, P s → Preserves P (f s)) : Preserves P (get >>= f) := fun s hs => by
  rw [exec_bind_ok (exec_get s)]
  exact hf s hs s hs

theorem preserves_tryCatch {x : ExceptT Error (StateM σ) α}
    {f : Error → ExceptT Error (StateM σ) α} (hx : Preserves P x)
    (hf : ∀ e, Preserves P (f e)) : Preserves P (tryCatch x f) := by
  intro s hs
  have hfirst := hx s hs
  rw [exec_tryCatch]
  generalize exec x s = run at hfirst
  obtain ⟨outcome, s'⟩ := run
  cases outcome with
  | error e => exact hf e s' hfirst
  | ok a => exact hfirst

/-! ## What a computation is sure to come to -/

/-- From every state with a property a computation comes to a value as described, and the state has
the property again. -/
def Succeeds (P : σ → Prop) (x : ExceptT Error (StateM σ) α) (Q : α → Prop) : Prop :=
  ∀ s, P s → ∃ a s', exec x s = (.ok a, s') ∧ Q a ∧ P s'

theorem succeeds_pure {Q : α → Prop} {a : α} (ha : Q a) :
    Succeeds P (pure a : ExceptT Error (StateM σ) α) Q :=
  fun s hs => ⟨a, s, rfl, ha, hs⟩

theorem Succeeds.bind {Q : α → Prop} {R : β → Prop} {x : ExceptT Error (StateM σ) α}
    {f : α → ExceptT Error (StateM σ) β} (hx : Succeeds P x Q)
    (hf : ∀ a, Q a → Succeeds P (f a) R) : Succeeds P (x >>= f) R := by
  intro s hs
  obtain ⟨a, s', hrun, ha, hs'⟩ := hx s hs
  rw [exec_bind_ok hrun]
  exact hf a ha s' hs'

/-- Where the states are listed, all of them can be tried. -/
instance [DecidableEq σ] (states : List σ) (x : ExceptT Error (StateM σ) α) (Q : α → Prop)
    [DecidablePred Q] : Decidable (Succeeds (· ∈ states) x Q) :=
  decidable_of_iff
    (∀ s ∈ states, ∃ a ∈ (exec x s).1.toOption, Q a ∧ (exec x s).2 ∈ states) <| by
      refine forall₂_congr fun s _ => ?_
      rcases exec x s with ⟨e | a, s'⟩ <;> simp [Except.toOption, and_assoc]

end Credence
