import Credence.KnowledgeBase.Basic
import Credence.Proofs.Deduction.Questions
import Credence.Proofs.Deduction.Simulation
import Credence.Proofs.Running

/-!
# The trace of a deduction

A deduction does not show which questions it asked on its way.  `Traced` computations keep a log of
them: every question that came up, how it was met, and the questions that were under way at the
time, innermost first.  `World.trace` is a whole query in this form.  It is the same recursion over
the same memory, and `trace_outcome` says that forgetting the log gives the query back.
-/

namespace Credence

/-- How a question was met. -/
inductive Reply where
  /-- It was taken up. -/
  | fresh
  /-- Its answer was remembered. -/
  | recalled (strength : Float)
  /-- It was under way already, so the rule contributes nothing. -/
  | reentrant
deriving DecidableEq, Repr

/-- A question that came up. -/
structure Asking where
  /-- The questions under way, innermost first. -/
  chain : List Question
  question : Question
  reply : Reply
deriving DecidableEq, Repr

/-- A deduction that knows the questions under way and logs the questions that come up, the last one
first. -/
abbrev Traced (α : Type) := ReaderT (List Question) (ExceptT Error (StateM (Memo × List Asking))) α

namespace Traced

/-- Answers a question like `World.remembered`, and logs it. -/
def remembered : Recall Traced := fun q compute chain s =>
  match s.1.get? q with
  | some (.done v) => (.ok (some v), (s.1, ⟨chain, q, .recalled v⟩ :: s.2))
  | some .running => (.ok none, (s.1, ⟨chain, q, .reentrant⟩ :: s.2))
  | none =>
    match exec (compute.run (q :: chain)) (s.1.insert q .running, ⟨chain, q, .fresh⟩ :: s.2) with
    | (.ok v, s) => (.ok (some v), (s.1.insert q (.done v), s.2))
    | (.error e, s) => (.error e, (s.1.erase q, s.2))

end Traced

/-- What is known of a query after it was traced. -/
structure Trace where
  outcome : Except Error Finding
  memo : Memo
  /-- The questions that came up, the last one first. -/
  log : List Asking

/-- Traces a query from a fresh memory, with a number of nested inferences allowed and a verdict for
those beyond. -/
def World.traceAt (w : World) (beyond : Inquiry Traced) (n : Nat) (domain : Subject)
    (relation : String) (target : Subject) (conditions : Bool) : Trace :=
  let r := w.reasonerAt Traced.remembered beyond n
  let run := exec ((w.inferSubjects Traced.remembered r domain relation target conditions).run [])
    (∅, [])
  ⟨run.1, run.2.1, run.2.2⟩

/-- Traces a query from a fresh memory. -/
def World.trace (w : World) : Subject → String → Subject → Bool → Trace :=
  w.traceAt (fun _ _ _ _ => return .unknown) (w.depthBound + 1)

/-! ## Remembered answers -/

namespace Memo

variable {memo : Memo} {q p : Question} {x y : Float}

theorem done_of_insert_running (h : (memo.insert q .running).get? p = some (.done x)) :
    memo.get? p = some (.done x) := by
  rw [Table.get?_insert] at h
  split at h
  · nomatch h
  · exact h

theorem done_of_erase (h : (memo.erase q).get? p = some (.done x)) :
    memo.get? p = some (.done x) := by
  rw [Table.get?_erase] at h
  split at h
  · nomatch h
  · exact h

/-- An answer is the new one, or was there before. -/
theorem done_of_insert_done (h : (memo.insert q (.done y)).get? p = some (.done x)) :
    p = q ∧ x = y ∨ memo.get? p = some (.done x) := by
  rw [Table.get?_insert] at h
  split at h
  · rename_i hpq
    cases h
    exact Or.inl ⟨hpq, rfl⟩
  · exact Or.inr h

end Memo

/-! ## Runs -/

/-- What becomes of a question in a plain deduction. -/
theorem World.exec_remembered (q : Question) (x : Deduction Float) (memo : Memo) :
    exec (World.remembered q x) memo =
      match memo.get? q with
      | some (.done v) => (.ok (some v), memo)
      | some .running => (.ok none, memo)
      | none =>
        match exec x (memo.insert q .running) with
        | (.ok v, memo') => (.ok (some v), memo'.insert q (.done v))
        | (.error e, memo') => (.error e, memo'.erase q) := by
  unfold World.remembered
  rw [exec_bind, exec_get]
  dsimp only
  cases memo.get? q with
  | some progress => cases progress <;> rfl
  | none =>
      dsimp only
      rw [exec_bind, exec_modify]
      dsimp only
      rw [exec_tryCatch, exec_bind]
      rcases exec x (memo.insert q .running) with ⟨e | v, memo'⟩ <;> rfl

namespace Traced

variable {α β : Type} (chain : List Question) (s : Memo × List Asking)

@[simp] theorem run_pure (a : α) : exec ((pure a : Traced α).run chain) s = (.ok a, s) := rfl

@[simp] theorem run_throw (e : Error) :
    exec ((throw e : Traced α).run chain) s = (.error e, s) := rfl

theorem run_bind (x : Traced α) (f : α → Traced β) :
    exec ((x >>= f).run chain) s =
      match exec (x.run chain) s with
      | (.ok a, s') => exec ((f a).run chain) s'
      | (.error e, s') => (.error e, s') := by
  rw [ReaderT.run_bind, exec_bind]
  rcases exec (x.run chain) s with ⟨e | a, s'⟩ <;> rfl

/-- What becomes of a question in a traced deduction. -/
theorem run_remembered (q : Question) (x : Traced Float) :
    exec ((remembered q x).run chain) s =
      match s.1.get? q with
      | some (.done v) => (.ok (some v), (s.1, ⟨chain, q, .recalled v⟩ :: s.2))
      | some .running => (.ok none, (s.1, ⟨chain, q, .reentrant⟩ :: s.2))
      | none =>
        match exec (x.run (q :: chain)) (s.1.insert q .running, ⟨chain, q, .fresh⟩ :: s.2) with
        | (.ok v, s) => (.ok (some v), (s.1.insert q (.done v), s.2))
        | (.error e, s) => (.error e, (s.1.erase q, s.2)) := rfl

end Traced

/-! ## Forgetting the log -/

/-- A traced computation and a plain one do the same to the memory, and give the same. -/
def erasure : Simulation Traced Deduction where
  Rel P x y := ∀ chain s,
    let run := exec (x.run chain) s
    exec y s.1 = (run.1, run.2.1) ∧ ∀ a, run.1 = .ok a → P a
  Allowed _ := True
  pure ha _ _ := ⟨rfl, fun a h => by cases h; exact ha⟩
  throw _ _ _ := ⟨rfl, fun a h => nomatch h⟩
  bind {α β P Q x y f g} hxy hfg chain s := by
    obtain ⟨hrun, hP⟩ := hxy chain s
    rw [Traced.run_bind, exec_bind, hrun]
    rcases hx : exec (x.run chain) s with ⟨e | a, s'⟩
    · exact ⟨rfl, fun a h => nomatch h⟩
    · rw [hx] at hP
      exact hfg a (hP a rfl) chain s'
  mono hPQ hxy chain s := ⟨(hxy chain s).1, fun a h => hPQ a ((hxy chain s).2 a h)⟩
  allowed _ := trivial

theorem erasure_remembered {x : Traced Float} {y : Deduction Float} (h : erasure.Related x y)
    (q : Question) : erasure.Related (Traced.remembered q x) (World.remembered q y) := by
  intro chain s
  refine ⟨?_, fun _ _ => trivial⟩
  rw [Traced.run_remembered, World.exec_remembered]
  cases s.1.get? q with
  | some progress => cases progress <;> rfl
  | none =>
      dsimp only
      obtain ⟨hrun, -⟩ := h (q :: chain) (s.1.insert q .running, ⟨chain, q, .fresh⟩ :: s.2)
      rw [hrun]
      rcases exec (x.run (q :: chain)) _ with ⟨e | v, s'⟩ <;> rfl

theorem erasure_answers {w : World} (r : Reasoner Traced) (r' : Reasoner Deduction)
    (hr : erasure.Reasoners r r') :
    erasure.Answers w Traced.remembered World.remembered r r' := fun q rule _ =>
  erasure_remembered (Simulation.ruleStrength hr rule q.domain q.target) q

theorem erasure_reasonerAt (w : World) (n : Nat) :
    erasure.Reasoners (w.reasonerAt Traced.remembered (fun _ _ _ _ => return .unknown) n)
      (w.reasonerAt World.remembered (fun _ _ _ _ => return .unknown) n) :=
  Simulation.reasonerAt (fun _ _ _ _ => erasure.pure trivial) erasure_answers n

/-- The trace of a query comes to what the query comes to, and leaves the same memory. -/
theorem World.infer_eq_trace (w : World) (domain : Subject) (relation : String) (target : Subject)
    (conditions : Bool) :
    exec (w.infer domain relation target conditions) ∅ =
      ((w.trace domain relation target conditions).outcome,
        (w.trace domain relation target conditions).memo) := by
  have hanswers := erasure_answers (w := w) _ _ (erasure_reasonerAt w (w.depthBound + 1))
  exact (Simulation.inferSubjects hanswers domain relation target conditions [] (∅, [])).1

/-- A deduction is run on what is remembered. -/
theorem KnowledgeBase.exec_deduce {α : Type} (d : World → Deduction α) (kb : KnowledgeBase) :
    exec (KnowledgeBase.deduce d) kb =
      ((exec (d kb.toWorld) kb.memo).1, { kb with memo := (exec (d kb.toWorld) kb.memo).2 }) := by
  unfold KnowledgeBase.deduce
  rw [exec_bind, exec_get]
  show exec (match exec (d kb.toWorld) kb.memo with
    | (outcome, memo) => do
      set { kb with memo }
      KnowledgeBase.accept outcome) kb = _
  rcases exec (d kb.toWorld) kb.memo with ⟨e | a, memo⟩ <;> rfl

/-- The same for a knowledge base, which forgets all deductions before a query. -/
theorem KnowledgeBase.infer_eq_trace (kb : KnowledgeBase) (domain : Subject) (relation : String)
    (target : Subject) (conditions : Bool) :
    exec (KnowledgeBase.infer domain relation target conditions) kb =
      ((kb.toWorld.trace domain relation target conditions).outcome,
        { kb with memo := (kb.toWorld.trace domain relation target conditions).memo }) := by
  unfold KnowledgeBase.infer
  rw [exec_bind, exec_modify]
  dsimp only
  rw [exec_deduce]
  show (_, _) = _
  rw [show kb.reset.memo = ∅ from rfl, World.infer_eq_trace]
  rfl

end Credence
