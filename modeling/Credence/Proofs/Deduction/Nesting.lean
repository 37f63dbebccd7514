import Credence.Proofs.Deduction.Trace

/-!
# How deep a deduction nests

Rules call each other through their conditions in any way, also in circles, and on subjects that are
computed on the way.  What bounds the recursion is the memory: a question is taken up only if it is
not under way, so the questions under way are pairwise different, and a world has no more than
`depthBound` of them.

The invariant is `World.UnderWay`: the running entries of the memory are exactly the questions under
way.  `nested` relates two traced computations that start from such a memory.  With it the recursion
is followed once for two allowances of nested inferences at the same time.  Where one allowance is
used up, too many questions would be under way, so the case does not arise, and both runs are equal.
-/

namespace Credence

/-- The memory while a chain of questions is under way: they are different, the world poses them,
and they are what is running. -/
structure World.UnderWay (w : World) (chain : List Question) (memo : Memo) : Prop where
  distinct : chain.Nodup
  posed : ∀ q ∈ chain, ∃ rule, w.Poses q rule
  running : ∀ q, memo.get? q = some .running ↔ q ∈ chain

/-- A question that came up is posed by the world, as are those under way, which are different; and
if it was taken up, it was not among them. -/
structure World.Sound (w : World) (a : Asking) : Prop where
  distinct : a.chain.Nodup
  posed : ∀ q ∈ a.question :: a.chain, ∃ rule, w.Poses q rule
  fresh : a.reply = .fresh → a.question ∉ a.chain

namespace World.UnderWay

variable {w : World} {chain : List Question} {memo : Memo} {q : Question} {rule : Rule}

theorem empty (w : World) : w.UnderWay [] ∅ where
  distinct := List.nodup_nil
  posed _ hq := absurd hq List.not_mem_nil
  running q := by simp

/-- Only so many questions can be under way. -/
theorem length_le (h : w.UnderWay chain memo) : chain.length ≤ w.depthBound :=
  length_le_depthBound h.distinct h.posed

theorem not_mem (h : w.UnderWay chain memo) (hq : memo.get? q ≠ some .running) : q ∉ chain :=
  fun hmem => hq ((h.running q).mpr hmem)

/-- A question is taken up. -/
theorem begin (h : w.UnderWay chain memo) (hq : w.Poses q rule) (hnew : q ∉ chain) :
    w.UnderWay (q :: chain) (memo.insert q .running) where
  distinct := List.nodup_cons.mpr ⟨hnew, h.distinct⟩
  posed := List.forall_mem_cons.mpr ⟨⟨rule, hq⟩, h.posed⟩
  running p := by
    rw [Table.get?_insert, List.mem_cons]
    by_cases hp : p = q
    · simp [hp]
    · simp [hp, h.running p]

/-- The last question is answered. -/
theorem finish (h : w.UnderWay (q :: chain) memo) (x : Float) :
    w.UnderWay chain (memo.insert q (.done x)) where
  distinct := (List.nodup_cons.mp h.distinct).2
  posed := (List.forall_mem_cons.mp h.posed).2
  running p := by
    rw [Table.get?_insert]
    by_cases hp : p = q
    · simp [hp, (List.nodup_cons.mp h.distinct).1]
    · simp [hp, h.running p]

/-- The last question is given up. -/
theorem abort (h : w.UnderWay (q :: chain) memo) : w.UnderWay chain (memo.erase q) where
  distinct := (List.nodup_cons.mp h.distinct).2
  posed := (List.forall_mem_cons.mp h.posed).2
  running p := by
    rw [Table.get?_erase]
    by_cases hp : p = q
    · simp [hp, (List.nodup_cons.mp h.distinct).1]
    · simp [hp, h.running p]

theorem sound (h : w.UnderWay chain memo) (hq : w.Poses q rule) {reply : Reply}
    (hreply : reply = .fresh → q ∉ chain) : w.Sound ⟨chain, q, reply⟩ where
  distinct := h.distinct
  posed := List.forall_mem_cons.mpr ⟨⟨rule, hq⟩, h.posed⟩
  fresh := hreply

end World.UnderWay

namespace World.Sound

variable {w : World} {a : Asking}

theorem length_chain_le (h : w.Sound a) : a.chain.length ≤ w.depthBound :=
  length_le_depthBound h.distinct (List.forall_mem_cons.mp h.posed).2

theorem nodup_of_fresh (h : w.Sound a) (hfresh : a.reply = .fresh) :
    (a.question :: a.chain).Nodup :=
  List.nodup_cons.mpr ⟨h.fresh hfresh, h.distinct⟩

end World.Sound

/-! ## Two runs with the same chain -/

/-- Two traced computations do the same while a chain of questions is under way, and leave it and a
sound log behind. -/
def nested (w : World) (chain : List Question) : Simulation Traced Traced where
  Rel P x y := ∀ s, w.UnderWay chain s.1 → (∀ a ∈ s.2, w.Sound a) →
    let run := exec (x.run chain) s
    exec (y.run chain) s = run ∧ w.UnderWay chain run.2.1 ∧ (∀ a ∈ run.2.2, w.Sound a) ∧
      ∀ a, run.1 = .ok a → P a
  Allowed _ := True
  pure ha s hmemo hlog := ⟨rfl, hmemo, hlog, fun a h => by cases h; exact ha⟩
  throw _ s hmemo hlog := ⟨rfl, hmemo, hlog, fun a h => nomatch h⟩
  bind {α β P Q x y f g} hxy hfg s hmemo hlog := by
    obtain ⟨hrun, hmemo', hlog', hP⟩ := hxy s hmemo hlog
    rw [Traced.run_bind, Traced.run_bind, hrun]
    rcases hx : exec (x.run chain) s with ⟨e | a, s'⟩
    · rw [hx] at hmemo' hlog'
      exact ⟨rfl, hmemo', hlog', fun a h => nomatch h⟩
    · rw [hx] at hmemo' hlog' hP
      exact hfg a (hP a rfl) s' hmemo' hlog'
  mono hPQ hxy s hmemo hlog := by
    obtain ⟨hrun, hmemo', hlog', hP⟩ := hxy s hmemo hlog
    exact ⟨hrun, hmemo', hlog', fun a h => hPQ a (hP a h)⟩
  allowed _ := trivial

variable {w : World}

/-- No question is taken up while as many are under way as the world has. -/
theorem nested_of_depthBound_lt {chain : List Question} (hlength : w.depthBound < chain.length)
    {α : Type} {P : α → Prop} (x y : Traced α) : (nested w chain).Rel P x y := by
  -- a chain of different questions of the world cannot be that long
  intro s hmemo
  exact absurd hmemo.length_le (Nat.not_le.mpr hlength)

/-- One question: its answer is looked up, or it joins the chain and is answered. -/
theorem nested_remembered {chain : List Question} {q : Question} {rule : Rule}
    (hq : w.Poses q rule) {x y : Traced Float} (hxy : (nested w (q :: chain)).Related x y) :
    (nested w chain).Related (Traced.remembered q x) (Traced.remembered q y) := by
  intro s hmemo hlog
  rw [Traced.run_remembered, Traced.run_remembered]
  cases hget : s.1.get? q with
  | some progress =>
      cases progress with
      -- whether it is under way or answered, it is not taken up, so the chain stays as it is
      | running =>
          refine ⟨rfl, hmemo, List.forall_mem_cons.mpr ⟨?_, hlog⟩, fun _ _ => trivial⟩
          exact hmemo.sound hq fun h => nomatch h
      | done v =>
          refine ⟨rfl, hmemo, List.forall_mem_cons.mpr ⟨?_, hlog⟩, fun _ _ => trivial⟩
          exact hmemo.sound hq fun h => nomatch h
  | none =>
      have hnew : q ∉ chain := hmemo.not_mem (by rw [hget]; exact fun h => nomatch h)
      obtain ⟨hrun, hmemo', hlog', -⟩ := hxy (s.1.insert q .running, ⟨chain, q, .fresh⟩ :: s.2)
        (hmemo.begin hq hnew)
        (List.forall_mem_cons.mpr ⟨hmemo.sound hq fun _ => hnew, hlog⟩)
      dsimp only
      rw [hrun]
      rcases hx : exec (x.run (q :: chain)) (s.1.insert q .running, ⟨chain, q, .fresh⟩ :: s.2) with
        ⟨e | v, s'⟩
      · rw [hx] at hmemo' hlog'
        exact ⟨rfl, hmemo'.abort, hlog', fun _ _ => trivial⟩
      · rw [hx] at hmemo' hlog'
        exact ⟨rfl, hmemo'.finish v, hlog', fun _ _ => trivial⟩

/-- The induction goes down one allowance.  Every nested inference lengthens the chain by one, so
the sum of the two stays beyond the bound. -/
theorem nested_reasonerAt (beyond beyond' : Inquiry Traced) (n m : Nat) (chain : List Question)
    (hn : w.depthBound < n + chain.length) (hm : w.depthBound < m + chain.length) :
    (nested w chain).Reasoners (w.reasonerAt Traced.remembered beyond n)
      (w.reasonerAt Traced.remembered beyond' m) := by
  induction n generalizing m chain with
  | zero =>
      rw [Nat.zero_add] at hn
      cases m with
      | zero => exact Simulation.reasonerWith fun _ _ _ _ => nested_of_depthBound_lt hn _ _
      | succ m => exact Simulation.reasonerWith fun _ _ _ _ => nested_of_depthBound_lt hn _ _
  | succ n ih =>
      cases m with
      | zero =>
          rw [Nat.zero_add] at hm
          exact Simulation.reasonerWith fun _ _ _ _ => nested_of_depthBound_lt hm _ _
      | succ m =>
          refine Simulation.reasonerWith (Simulation.inferValues fun q rule hq => ?_)
          have hr := ih m (q :: chain) (by rw [List.length_cons]; omega)
            (by rw [List.length_cons]; omega)
          exact nested_remembered hq (Simulation.ruleStrength hr rule q.domain q.target)

theorem nested_inferSubjects (beyond beyond' : Inquiry Traced) {n m : Nat}
    (hn : w.depthBound < n) (hm : w.depthBound < m) (domain : Subject) (relation : String)
    (target : Subject) (conditions : Bool) :
    (nested w []).Related
      (w.inferSubjects Traced.remembered (w.reasonerAt Traced.remembered beyond n) domain relation
        target conditions)
      (w.inferSubjects Traced.remembered (w.reasonerAt Traced.remembered beyond' m) domain relation
        target conditions) := by
  refine Simulation.inferSubjects (fun q rule hq => ?_) domain relation target conditions
  have hr : (nested w [q]).Reasoners _ _ := nested_reasonerAt beyond beyond' n m [q]
    (by rw [List.length_singleton]; omega) (by rw [List.length_singleton]; omega)
  exact nested_remembered hq (Simulation.ruleStrength hr rule q.domain q.target)

/-! ## Whole queries -/

/-- With more nested inferences than the bound, none is ever refused. -/
theorem World.traceAt_eq_trace (w : World) (beyond : Inquiry Traced) {n : Nat}
    (hn : w.depthBound < n) (domain : Subject) (relation : String) (target : Subject)
    (conditions : Bool) :
    w.traceAt beyond n domain relation target conditions =
      w.trace domain relation target conditions := by
  have hrun := (nested_inferSubjects (fun _ _ _ _ => return .unknown) beyond
    (Nat.lt_succ_self w.depthBound) hn domain relation target conditions (∅, [])
    (UnderWay.empty w) fun _ ha => absurd ha List.not_mem_nil).1
  unfold World.trace World.traceAt
  dsimp only
  rw [hrun]

/-- Every question that comes up in a query is sound. -/
theorem World.sound_of_mem_log {w : World} {domain target : Subject} {relation : String}
    {conditions : Bool} {a : Asking}
    (ha : a ∈ (w.trace domain relation target conditions).log) : w.Sound a :=
  (nested_inferSubjects (fun _ _ _ _ => return .unknown) (fun _ _ _ _ => return .unknown)
    (Nat.lt_succ_self w.depthBound) (Nat.lt_succ_self w.depthBound) domain relation target
    conditions (∅, []) (UnderWay.empty w) fun _ ha => absurd ha List.not_mem_nil).2.2.1 a ha

/-- A query of a knowledge base is its trace, in which the questions taken up while others are under
way are all different, and so no more than the rules times the pairs of subjects; and with that many
nested inferences the trace does not depend on how many there may be, nor on what would become of
one too many. -/
theorem KnowledgeBase.infer_nests_within_bound (kb : KnowledgeBase) (domain : Subject)
    (relation : String) (target : Subject) (conditions : Bool) :
    exec (KnowledgeBase.infer domain relation target conditions) kb =
        ((kb.toWorld.trace domain relation target conditions).outcome,
          { kb with memo := (kb.toWorld.trace domain relation target conditions).memo }) ∧
      (∀ a ∈ (kb.toWorld.trace domain relation target conditions).log,
        a.chain.Nodup ∧
        a.chain.length ≤ kb.ontology.ruleCount * (kb.subjectCount * kb.subjectCount) ∧
        (a.reply = .fresh → (a.question :: a.chain).Nodup ∧
          (a.question :: a.chain).length ≤
            kb.ontology.ruleCount * (kb.subjectCount * kb.subjectCount))) ∧
      ∀ (beyond : Inquiry Traced) (n : Nat),
        kb.ontology.ruleCount * (kb.subjectCount * kb.subjectCount) < n →
        kb.toWorld.traceAt beyond n domain relation target conditions =
          kb.toWorld.trace domain relation target conditions := by
  refine ⟨kb.infer_eq_trace domain relation target conditions, fun a ha => ?_, fun beyond n hn => ?_⟩
  · have hsound := World.sound_of_mem_log ha
    refine ⟨hsound.distinct, hsound.length_chain_le, fun hfresh => ?_⟩
    have hnodup := hsound.nodup_of_fresh hfresh
    exact ⟨hnodup, World.length_le_depthBound hnodup hsound.posed⟩
  · exact kb.toWorld.traceAt_eq_trace beyond hn domain relation target conditions

/-- One concept and relations on it, each of them with one rule under some conditions. -/
def World.single (relations : List (String × List Condition)) : World where
  ontology :=
    { concepts := Table.ofList [("A", { name := "A", category := .dynamic })]
      relations := Table.ofList (relations.map fun r => (r.1, {
        name := r.1
        domains := [{ bases := KeySet.ofList ["A"], view := KeySet.ofList ["A"] }]
        targets := [{ bases := KeySet.ofList ["A"], view := KeySet.ofList ["A"] }]
        rules := [{
          id := .nil
          domains := { bases := KeySet.ofList [.concept "A"], view := KeySet.ofList ["A"] }
          targets := { bases := KeySet.ofList [.concept "A"], view := KeySet.ofList ["A"] }
          confidence := 1
          conditions := r.2 }] })) }

/-- A relation that holds where it holds. -/
def World.echo : World :=
  .single [("echoes", [⟨"%=echoes=@", 1,
    .relation "echoes" (.slot .domain) (.slot .target) false⟩])]

/-- The bound is reached: there is one question, and it comes up again while it is under way. -/
theorem KnowledgeBase.echo_nests_within_bound :
    let t := World.echo.trace (.concept "A") "echoes" (.concept "A") true
    let q : Question := ⟨"echoes", 0, .concept "A", .concept "A"⟩
    (⟨[], q, .fresh⟩ ∈ t.log ∧ [q].length ≤ World.echo.depthBound) ∧
      (⟨[q], q, .reentrant⟩ ∈ t.log ∧ [q].length ≤ World.echo.depthBound) ∧
      World.echo.depthBound < 2 ∧
      World.echo.traceAt (fun _ _ _ _ => throw (.missing (.anything ""))) 2 (.concept "A") "echoes"
        (.concept "A") true = t := by
  intro t q
  obtain ⟨-, hlog, hallowance⟩ := KnowledgeBase.infer_nests_within_bound
    { toWorld := World.echo } (.concept "A") "echoes" (.concept "A") true
  have hfresh : ⟨[], q, .fresh⟩ ∈ t.log := by decide +kernel
  have hreentrant : ⟨[q], q, .reentrant⟩ ∈ t.log := by decide +kernel
  have hbound : World.echo.depthBound < 2 := by decide +kernel
  exact ⟨⟨hfresh, ((hlog _ hfresh).2.2 rfl).2⟩, ⟨hreentrant, (hlog _ hreentrant).2.1⟩, hbound,
    hallowance _ 2 hbound⟩

end Credence
