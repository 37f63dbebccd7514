import Credence.Proofs.Deduction.Trace

/-!
# No slot is left unfilled

Three parts of the library have to agree on the slots of a condition: `Expr.slots`, which collects
them and leaves out what a `count` ranges over, the evaluation of a `count`, which fills what it
ranges over unless the scenario has it already, and the evaluation of a rule, which fills `%`, `@`
and the parameters of all its conditions.  If one of them forgot a slot, a deduction could end in an
error about an unfilled slot.

The simulation `binding` has only computations that never do, and does not allow that error.
-/

namespace Credence

/-- A computation never ends in an error about an unfilled slot. -/
def NeverUnbound {σ α : Type} (x : ExceptT Error (StateM σ) α) : Prop :=
  ∀ (state : σ) (s : Slot), (exec x state).1 ≠ .error (.unbound s)

/-- Nothing that a reasoner is asked for ends in an error about an unfilled slot, if candidates are
asked for parameters only. -/
structure Reasoner.NeverUnbound {σ : Type} (r : Reasoner (ExceptT Error (StateM σ))) : Prop where
  infer (domain : Value) (relation : String) (target : Value) (conditions : Bool) :
    Credence.NeverUnbound (r.infer domain relation target conditions)
  candidates {s : Slot} (hs : s.isFree = true) : Credence.NeverUnbound (r.candidates s)
  property (v : Value) (key : String) : Credence.NeverUnbound (r.property v key)
  method (v : Value) (name : String) (args : List Value) :
    Credence.NeverUnbound (r.method v name args)
  construct (concept : String) (args : List Value) :
    Credence.NeverUnbound (r.construct concept args)

/-- The computations that never end in an error about an unfilled slot, whatever the other side
does. -/
def binding (σ : Type) :
    Simulation (ExceptT Error (StateM σ)) (ExceptT Error (StateM σ)) where
  Rel P x _ := NeverUnbound x ∧ ∀ s a, (exec x s).1 = .ok a → P a
  Allowed e := ∀ s, e ≠ .unbound s
  pure ha := ⟨fun _ _ h => (nomatch h), fun _ a h => by cases h; exact ha⟩
  throw he := ⟨fun _ s h => he s (Except.error.inj h), fun _ _ h => nomatch h⟩
  bind {α β P Q x y f g} hxy hfg := by
    have hrun : ∀ s, (∀ k, (exec (x >>= f) s).1 ≠ .error (.unbound k)) ∧
        ∀ b, (exec (x >>= f) s).1 = .ok b → Q b := by
      intro s
      rw [exec_bind]
      rcases hx : exec x s with ⟨e | a, s'⟩
      · have he := hxy.1 s
        rw [hx] at he
        exact ⟨fun k h => he k (congrArg _ (Except.error.inj h)), fun b h => nomatch h⟩
      · have ha := hfg a (hxy.2 s a (by rw [hx]))
        exact ⟨ha.1 s', ha.2 s'⟩
    exact ⟨fun s => (hrun s).1, fun s => (hrun s).2⟩
  mono hPQ hxy := ⟨hxy.1, fun s a h => hPQ a (hxy.2 s a h)⟩
  allowed he := he

theorem Reasoner.NeverUnbound.binding {σ : Type} {r : Reasoner (ExceptT Error (StateM σ))}
    (hr : r.NeverUnbound) : (binding σ).Reasoners r r where
  infer domain relation target conditions :=
    ⟨hr.infer domain relation target conditions, fun _ _ _ => trivial⟩
  candidates hs := ⟨hr.candidates hs, fun _ _ _ => trivial⟩
  property v key := ⟨hr.property v key, fun _ _ _ => trivial⟩
  method v name args := ⟨hr.method v name args, fun _ _ _ => trivial⟩
  construct concept args := ⟨hr.construct concept args, fun _ _ _ => trivial⟩

/-! ## Conditions -/

/-- A tree can be evaluated wherever its slots are filled, by any reasoner. -/
theorem Expr.neverUnbound_evaluate {σ : Type} {r : Reasoner (ExceptT Error (StateM σ))}
    (hr : r.NeverUnbound) {e : Expr} {scenario : Scenario}
    (hfill : ∀ s, e.slots.has s = true → scenario.contains s = true) :
    NeverUnbound (e.evaluate r scenario) :=
  (Simulation.evaluate hr.binding e scenario fun s hs => Or.inl (hfill s hs)).1

/-! ## Deductions -/

theorem binding_remembered {x : Deduction Float} (hx : NeverUnbound x) (q : Question) :
    (binding Memo).Related (World.remembered q x) (World.remembered q x) := by
  refine ⟨fun memo s => ?_, fun _ _ _ => trivial⟩
  rw [World.exec_remembered]
  cases memo.get? q with
  | some progress => cases progress <;> exact fun h => nomatch h
  | none =>
      have hrun := hx (memo.insert q .running) s
      dsimp only
      rcases hcompute : exec x (memo.insert q .running) with ⟨e | v, memo'⟩
      · rw [hcompute] at hrun
        exact fun h => hrun (congrArg _ (Except.error.inj h))
      · exact fun h => nomatch h

theorem binding_answers {w : World} (r r' : Reasoner Deduction)
    (hr : (binding Memo).Reasoners r r') :
    (binding Memo).Answers w World.remembered World.remembered r r' := fun q rule _ =>
  ⟨(binding_remembered (Simulation.ruleStrength hr rule q.domain q.target).1 q).1,
    fun _ _ _ => trivial⟩

theorem binding_reasonerAt (w : World) (n : Nat) :
    (binding Memo).Reasoners (w.reasonerAt World.remembered (fun _ _ _ _ => return .unknown) n)
      (w.reasonerAt World.remembered (fun _ _ _ _ => return .unknown) n) :=
  Simulation.reasonerAt (fun _ _ _ _ => (binding Memo).pure trivial) binding_answers n

/-- A rule fills every slot that its conditions ask for, at every depth. -/
theorem World.neverUnbound_infer (w : World) (domain : Subject) (relation : String)
    (target : Subject) (conditions : Bool) :
    NeverUnbound (w.infer domain relation target conditions) := by
  have hanswers := binding_answers (w := w) _ _ (binding_reasonerAt w (w.depthBound + 1))
  exact (Simulation.inferSubjects hanswers domain relation target conditions).1

/-- A query never ends in an error about an unfilled slot, and no condition does in a scenario that
fills its slots. -/
theorem KnowledgeBase.slots_are_filled :
    (∀ (domain : Subject) (relation : String) (target : Subject) (conditions : Bool),
      NeverUnbound (KnowledgeBase.infer domain relation target conditions)) ∧
    ∀ (σ : Type) (r : Reasoner (ExceptT Error (StateM σ))) (e : Expr) (scenario : Scenario),
      r.NeverUnbound → (∀ s, e.slots.has s = true → scenario.contains s = true) →
        NeverUnbound (e.evaluate r scenario) := by
  refine ⟨fun domain relation target conditions kb s => ?_, fun σ r e scenario hr hfill => ?_⟩
  · have hinfer := kb.toWorld.neverUnbound_infer domain relation target conditions ∅ s
    rw [World.infer_eq_trace] at hinfer
    rw [KnowledgeBase.infer_eq_trace]
    exact hinfer
  · exact Expr.neverUnbound_evaluate hr hfill

/-- A reasoner that knows nothing, and has one candidate for every parameter. -/
def Reasoner.ignorant : Reasoner (ExceptT Error (StateM Nat)) where
  infer _ _ _ _ := return .unknown
  candidates _ := return [.text "candidate"]
  property _ _ := return .null
  method _ _ _ := return .null
  construct _ _ := return .null

theorem Reasoner.neverUnbound_ignorant : ignorant.NeverUnbound where
  infer _ _ _ _ := fun _ _ h => nomatch h
  candidates _ := fun _ _ h => nomatch h
  property _ _ := fun _ _ h => nomatch h
  method _ _ _ := fun _ _ h => nomatch h
  construct _ _ := fun _ _ h => nomatch h

/-- Without the target, `count(%=near=#City) > 0` can be evaluated where the domain is known. -/
theorem KnowledgeBase.slots_of_count_are_filled :
    let counted : Expr := .relation "near" (.slot .domain) (.slot (.param "City" none)) false
    let e : Expr := .binary .gt (.builtin .count [counted]) (.number 0)
    let scenario : Scenario := (∅ : Scenario).insert .domain (.text "here")
    Reasoner.ignorant.NeverUnbound ∧ (∀ s, e.slots.has s = true → scenario.contains s = true) ∧
      NeverUnbound (e.evaluate Reasoner.ignorant scenario) := by
  intro counted e scenario
  have hfill : ∀ s, e.slots.has s = true → scenario.contains s = true := by
    intro s hs
    have hdomain : s = .domain := by
      cases s with
      | domain => rfl
      | target => exact absurd hs (by decide +kernel)
      | param concept tag =>
          simp [e, counted, Expr.has_slots_count, Expr.headSlots_cons, Slot.isFree] at hs
          exact absurd hs.1 (not_and_or.mpr hs.2)
    rw [hdomain]
    rfl
  exact ⟨Reasoner.neverUnbound_ignorant, hfill,
    KnowledgeBase.slots_are_filled.2 Nat _ e scenario Reasoner.neverUnbound_ignorant hfill⟩

end Credence
