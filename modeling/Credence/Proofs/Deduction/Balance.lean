import Credence.Proofs.Deduction.Trace

/-!
# What a deduction does to the memory

A mark stands in the memory while a question is under way, and has to go again on every way out: with
the answer, with an error from any depth, and where the question was met again and not taken up.
`Balanced` says that a computation has put the marks back as they were, and has only added answers
beside.

Balance is a property of each step that sequencing keeps.  `steady` is the simulation of such
properties in general.
-/

namespace Credence

/-! ## Properties of the steps of the memory -/

/-- The computations whose runs relate each memory to the one they leave, whatever the other side
does. -/
def steady (R : Memo → Memo → Prop) (hrefl : ∀ memo, R memo memo)
    (htrans : ∀ {a b c}, R a b → R b c → R a c) : Simulation Deduction Deduction where
  Rel P x _ := ∀ memo, R memo (exec x memo).2 ∧ ∀ a, (exec x memo).1 = .ok a → P a
  Allowed _ := True
  pure ha memo := ⟨hrefl memo, fun a h => by cases h; exact ha⟩
  throw _ memo := ⟨hrefl memo, fun _ h => nomatch h⟩
  bind {α β P Q x y f g} hxy hfg memo := by
    obtain ⟨hfirst, hP⟩ := hxy memo
    rw [exec_bind]
    rcases hx : exec x memo with ⟨e | a, memo'⟩
    · rw [hx] at hfirst
      exact ⟨hfirst, fun _ h => nomatch h⟩
    · rw [hx] at hfirst hP
      obtain ⟨hrest, hQ⟩ := hfg a (hP a rfl) memo'
      exact ⟨htrans hfirst hrest, hQ⟩
  mono hPQ hxy memo := ⟨(hxy memo).1, fun a h => hPQ a ((hxy memo).2 a h)⟩
  allowed _ := trivial

/-! ## Balance -/

/-- The same questions are under way, answers have stayed, and whatever is new is an answer. -/
structure Balanced (before after : Memo) : Prop where
  running (q : Question) : after.get? q = some .running ↔ before.get? q = some .running
  answered {q : Question} {x : Float} (h : before.get? q = some (.done x)) :
    after.get? q = some (.done x)
  added {q : Question} {p : Progress} (hnew : before.get? q = none) (h : after.get? q = some p) :
    ∃ x, p = .done x

namespace Balanced

variable {a b c memo memo' : Memo} {q : Question}

theorem refl (memo : Memo) : Balanced memo memo where
  running _ := Iff.rfl
  answered h := h
  added hnew h := by
    rw [hnew] at h
    nomatch h

theorem trans (hab : Balanced a b) (hbc : Balanced b c) : Balanced a c where
  running q := (hbc.running q).trans (hab.running q)
  answered h := hbc.answered (hab.answered h)
  added {q p} hnew h := by
    cases p with
    | done x => exact ⟨x, rfl⟩
    | running =>
        rw [hbc.running, hab.running, hnew] at h
        nomatch h

/-- A question was taken up and its computation was balanced; then its mark goes, and nothing else
changes. -/
theorem resume (hq : memo.get? q = none) (h : Balanced (memo.insert q .running) memo')
    (hself : ∀ p, c.get? q = some p → ∃ x, p = .done x)
    (hothers : ∀ p, p ≠ q → c.get? p = memo'.get? p) : Balanced memo c where
  running p := by
    by_cases hp : p = q
    · subst hp
      rw [hq]
      refine ⟨fun hrunning => ?_, fun hnone => nomatch hnone⟩
      obtain ⟨x, hx⟩ := hself _ hrunning
      nomatch hx
    · rw [hothers p hp, h.running, Table.get?_insert, if_neg hp]
  answered {p y} hy := by
    have hp : p ≠ q := by
      rintro rfl
      rw [hq] at hy
      nomatch hy
    rw [hothers p hp]
    exact h.answered (by rw [Table.get?_insert, if_neg hp, hy])
  added {p progress} hnew hprogress := by
    by_cases hp : p = q
    · subst hp
      exact hself progress hprogress
    · rw [hothers p hp] at hprogress
      exact h.added (by rw [Table.get?_insert, if_neg hp, hnew]) hprogress

/-- The question is answered. -/
theorem finish (hq : memo.get? q = none) (h : Balanced (memo.insert q .running) memo')
    (x : Float) : Balanced memo (memo'.insert q (.done x)) := by
  refine h.resume hq (fun p hp => ⟨x, ?_⟩) fun p hp => ?_
  · rw [Table.get?_insert, if_pos rfl] at hp
    exact (Option.some.inj hp).symm
  · rw [Table.get?_insert, if_neg hp]

/-- The question is given up. -/
theorem abort (hq : memo.get? q = none) (h : Balanced (memo.insert q .running) memo') :
    Balanced memo (memo'.erase q) := by
  refine h.resume hq (fun p hp => ?_) fun p hp => ?_
  · rw [Table.get?_erase, if_pos rfl] at hp
    nomatch hp
  · rw [Table.get?_erase, if_neg hp]

end Balanced

/-- No question is under way. -/
def Idle (memo : Memo) : Prop := ∀ q, memo.get? q ≠ some .running

theorem idle_empty : Idle ∅ := fun _ h => nomatch h

theorem Idle.balanced {before after : Memo} (h : Idle before) (hafter : Balanced before after) :
    Idle after :=
  fun q hq => h q ((hafter.running q).mp hq)

/-! ## Deductions are balanced -/

/-- The computations that leave every memory balanced. -/
def balancing : Simulation Deduction Deduction := steady Balanced Balanced.refl Balanced.trans

/-- One question: it is met and left as it is, or taken up and put away. -/
theorem balancing_remembered {x y : Deduction Float} (h : balancing.Related x y) (q : Question) :
    balancing.Related (World.remembered q x) (World.remembered q y) := by
  refine fun memo => ⟨?_, fun _ _ => trivial⟩
  rw [World.exec_remembered]
  cases hq : memo.get? q with
  | some progress => cases progress <;> exact .refl memo
  | none =>
      have hcompute := (h (memo.insert q .running)).1
      dsimp only
      generalize exec x (memo.insert q .running) = run at hcompute
      obtain ⟨outcome, memo'⟩ := run
      cases outcome with
      | error e => exact .abort hq hcompute
      | ok v => exact .finish hq hcompute v

theorem balancing_answers {w : World} (r r' : Reasoner Deduction)
    (hr : balancing.Reasoners r r') :
    balancing.Answers w World.remembered World.remembered r r' := fun q rule _ =>
  balancing_remembered (Simulation.ruleStrength hr rule q.domain q.target) q

theorem balancing_reasonerAt (w : World) (n : Nat) :
    balancing.Reasoners (w.reasonerAt World.remembered (fun _ _ _ _ => return .unknown) n)
      (w.reasonerAt World.remembered (fun _ _ _ _ => return .unknown) n) :=
  Simulation.reasonerAt (fun _ _ _ _ => balancing.pure trivial) balancing_answers n

namespace World

variable (w : World) (n : Nat) (memo : Memo)

/-- Evaluating a condition is balanced, however many nested inferences are left. -/
theorem balanced_evaluate (e : Expr) (scenario : Scenario) :
    Balanced memo (exec (e.evaluate
      (w.reasonerAt remembered (fun _ _ _ _ => return .unknown) n) scenario) memo).2 :=
  (Simulation.evaluate (balancing_reasonerAt w n) e scenario (fun _ _ => Or.inr trivial) memo).1

theorem balanced_inferValues (domain : Value) (relation : String) (target : Value)
    (conditions : Bool) :
    Balanced memo (exec (w.inferValues remembered
      (w.reasonerAt remembered (fun _ _ _ _ => return .unknown) n) domain relation target
      conditions) memo).2 :=
  (Simulation.inferValues (balancing_answers _ _ (balancing_reasonerAt w n)) domain relation target
    conditions memo).1

theorem balanced_inferSubjects (domain : Subject) (relation : String) (target : Subject)
    (conditions : Bool) :
    Balanced memo (exec (w.inferSubjects remembered
      (w.reasonerAt remembered (fun _ _ _ _ => return .unknown) n) domain relation target
      conditions) memo).2 :=
  (Simulation.inferSubjects (balancing_answers _ _ (balancing_reasonerAt w n)) domain relation
    target conditions memo).1

end World

end Credence
