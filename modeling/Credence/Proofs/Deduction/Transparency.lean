import Credence.Proofs.Deduction.Nesting

/-!
# What the memory is worth

A rule that is asked about a pair twice is evaluated once.  This changes the work and, as long as no
question comes up while it is under way, nothing else: a query in which that does not happen comes
to what it would come to if every answer were computed anew (`KnowledgeBase.infer_eq_reevaluated`).
It makes no difference that queries with and without conditional rules share one memory.

The proof compares one traced run with many runs that remember nothing.  An answer that is recalled
was computed before, with other questions under way.  So what the traced run has learnt must hold in
every context: a value that it came to is what comes out in all chains that avoid the questions
answered by then (`transparent`), and each remembered answer is good in all of them (`Reliable`). A
refusal is only compared in chains within the present one, which is where it is passed on.
-/

namespace Credence

/-- Answers a question by a computation, also if it was answered before; none if it is being
answered already. -/
def World.reevaluated : Recall Deduction := fun q compute => do
  match (← get).get? q with
  | some .running => return none
  | _ =>
    modify fun memo => memo.insert q .running
    try
      let x ← compute
      modify fun memo => memo.insert q (.done x)
      pure (some x)
    catch e =>
      modify fun memo => memo.erase q
      throw e

/-- What becomes of a question that is not under way if nothing is remembered. -/
theorem World.exec_reevaluated {q : Question} {memo : Memo} (hq : memo.get? q ≠ some .running)
    (x : Deduction Float) :
    exec (World.reevaluated q x) memo =
      match exec x (memo.insert q .running) with
      | (.ok v, memo') => (.ok (some v), memo'.insert q (.done v))
      | (.error e, memo') => (.error e, memo'.erase q) := by
  have hcompute : exec (World.reevaluated q x) memo = exec (do
      modify fun memo => memo.insert q .running
      try
        let x ← x
        modify fun memo => memo.insert q (.done x)
        pure (some x)
      catch e =>
        modify fun memo => memo.erase q
        throw e) memo := by
    unfold World.reevaluated
    rw [exec_bind, exec_get]
    dsimp only
    cases hget : memo.get? q with
    | none => rfl
    | some progress =>
        cases progress with
        | running => exact absurd hget hq
        | done v => rfl
  rw [hcompute, exec_bind, exec_modify]
  dsimp only
  rw [exec_tryCatch, exec_bind]
  rcases exec x (memo.insert q .running) with ⟨e | v, memo'⟩ <;> rfl

/-- A question has a remembered answer. -/
def Answered (memo : Memo) (q : Question) : Prop := ∃ v, memo.get? q = some (.done v)

theorem answered_insert_running {memo : Memo} {q p : Question} (hq : memo.get? q = none) :
    Answered (memo.insert q .running) p ↔ Answered memo p := by
  unfold Answered
  rw [Table.get?_insert]
  by_cases hp : p = q
  · simp [hp, hq]
  · simp [hp]

/-- A question that is under way can be given up without loss. -/
theorem answered_erase {w : World} {chain : List Question} {memo : Memo} {q p : Question}
    (hmemo : w.UnderWay (q :: chain) memo) (hp : Answered memo p) : Answered (memo.erase q) p := by
  obtain ⟨v, hv⟩ := hp
  refine ⟨v, ?_⟩
  rw [Table.get?_erase, if_neg, hv]
  intro hpq
  rw [hpq, (hmemo.running q).mpr List.mem_cons_self] at hv
  nomatch hv

/-- A question can be answered without loss. -/
theorem answered_insert_done {memo : Memo} {q p : Question} (x : Float) (hp : Answered memo p) :
    Answered (memo.insert q (.done x)) p := by
  by_cases hpq : p = q
  · exact ⟨x, by rw [Table.get?_insert, if_pos hpq]⟩
  · obtain ⟨v, hv⟩ := hp
    exact ⟨v, by rw [Table.get?_insert, if_neg hpq, hv]⟩

variable (w : World) (beyond : Inquiry Deduction)

/-- A computation comes to a value in all chains that avoid the questions answered in a memory, and
that leave it enough nested inferences. -/
def Yields {α : Type} (n : Nat) (known : Memo) (y : Deduction α) (a : α) : Prop :=
  ∀ chain memo, w.UnderWay chain memo → w.depthBound < n + chain.length →
    (∀ q ∈ chain, ¬ Answered known q) →
    ∃ memo', exec y memo = (.ok a, memo') ∧ w.UnderWay chain memo'

/-- A computation comes to an error in all chains within a given one. -/
def Refuses {α : Type} (n : Nat) (chain : List Question) (y : Deduction α) (e : Error) : Prop :=
  ∀ chain' memo, w.UnderWay chain' memo → w.depthBound < n + chain'.length → chain' ⊆ chain →
    ∃ memo', exec y memo = (.error e, memo') ∧ w.UnderWay chain' memo'

/-- A question taken up without memory, with a number of nested inferences left to its rule. -/
def anew (n : Nat) (q : Question) (rule : Rule) : Deduction (Option Float) :=
  World.reevaluated q
    (World.ruleStrength (w.reasonerAt World.reevaluated beyond n) rule q.domain q.target)

/-- Every remembered answer comes out again. -/
def Reliable (memo : Memo) : Prop :=
  ∀ q v rule, memo.get? q = some (.done v) → w.Poses q rule →
    ∀ n, Yields w (n + 1) memo (anew w beyond n q rule) (some v)

/-- No question came up while it was under way. -/
def NoReentry (log : List Asking) : Prop := ∀ a ∈ log, a.reply ≠ .reentrant

/-- What a traced run tells of a plain computation, whose nested inferences are counted by `n`. -/
structure Follows {α : Type} (n : Nat) (chain : List Question) (P : α → Prop) (y : Deduction α)
    (s : Memo × List Asking) (run : Except Error α × (Memo × List Asking)) : Prop where
  grows : ∃ new, run.2.2 = new ++ s.2
  underWay : w.UnderWay chain run.2.1
  gives : ∀ a, run.1 = .ok a → P a
  keeps : ∀ q, Answered s.1 q → Answered run.2.1 q
  reliable : Reliable w beyond s.1 → NoReentry run.2.2 → Reliable w beyond run.2.1
  value : Reliable w beyond s.1 → NoReentry run.2.2 →
    ∀ a, run.1 = .ok a → Yields w n run.2.1 y a
  refusal : Reliable w beyond s.1 → NoReentry run.2.2 →
    ∀ e, run.1 = .error e → Refuses w n chain y e

variable {w beyond}

/-! ## Values and refusals in sequence -/

theorem Yields.mono {α : Type} {n : Nat} {known known' : Memo} {y : Deduction α} {a : α}
    (h : Yields w n known y a) (hknown : ∀ q, Answered known q → Answered known' q) :
    Yields w n known' y a :=
  fun chain memo hmemo hlength havoid =>
    h chain memo hmemo hlength fun q hq hanswered => havoid q hq (hknown q hanswered)

theorem Yields.pure {α : Type} (n : Nat) (known : Memo) (a : α) :
    Yields w n known (Pure.pure a) a :=
  fun _ memo hmemo _ _ => ⟨memo, rfl, hmemo⟩

theorem Refuses.throw {α : Type} (n : Nat) (chain : List Question) (e : Error) :
    Refuses w n chain (MonadExcept.throw e : Deduction α) e :=
  fun _ memo hmemo _ _ => ⟨memo, rfl, hmemo⟩

theorem Yields.bind {α β : Type} {n : Nat} {known known' : Memo} {y : Deduction α} {a : α}
    {g : α → Deduction β} {b : β} (hy : Yields w n known y a)
    (hknown : ∀ q, Answered known q → Answered known' q) (hg : Yields w n known' (g a) b) :
    Yields w n known' (y >>= g) b := by
  intro chain memo hmemo hlength havoid
  obtain ⟨memo', hrun, hmemo'⟩ := hy.mono hknown chain memo hmemo hlength havoid
  rw [exec_bind_ok hrun]
  exact hg chain memo' hmemo' hlength havoid

theorem Refuses.bind {α β : Type} {n : Nat} {chain : List Question} {y : Deduction α} {e : Error}
    (hy : Refuses w n chain y e) (g : α → Deduction β) : Refuses w n chain (y >>= g) e := by
  intro chain' memo hmemo hlength hsub
  obtain ⟨memo', hrun, hmemo'⟩ := hy chain' memo hmemo hlength hsub
  exact ⟨memo', exec_bind_error hrun, hmemo'⟩

/-- What is under way is not answered, so a value also comes out in every chain within the present
one. -/
theorem Yields.bind_refuses {α β : Type} {n : Nat} {chain : List Question} {known : Memo}
    {y : Deduction α} {a : α} {g : α → Deduction β} {e : Error} (hy : Yields w n known y a)
    (hknown : w.UnderWay chain known) (hg : Refuses w n chain (g a) e) :
    Refuses w n chain (y >>= g) e := by
  intro chain' memo hmemo hlength hsub
  have havoid : ∀ q ∈ chain', ¬ Answered known q := by
    rintro q hq ⟨v, hv⟩
    have hrunning := (hknown.running q).mpr (hsub hq)
    rw [hv] at hrunning
    nomatch hrunning
  obtain ⟨memo', hrun, hmemo'⟩ := hy chain' memo hmemo hlength havoid
  rw [exec_bind_ok hrun]
  exact hg chain' memo' hmemo' hlength hsub

/-! ## A traced run beside runs without memory -/

section Follows

variable {α β : Type} {n : Nat} {chain : List Question} {P : α → Prop} {Q : β → Prop}
  {y : Deduction α} {g : α → Deduction β} {s s' s'' : Memo × List Asking}

theorem Follows.pure {a : α} (ha : P a) (hs : w.UnderWay chain s.1) :
    Follows w beyond n chain P (Pure.pure a) s (.ok a, s) where
  grows := ⟨[], rfl⟩
  underWay := hs
  gives _ h := Except.ok.inj h ▸ ha
  keeps _ h := h
  reliable h _ := h
  value _ _ _ h := Except.ok.inj h ▸ Yields.pure n s.1 a
  refusal _ _ _ h := nomatch h

theorem Follows.throw {e : Error} (hs : w.UnderWay chain s.1) :
    Follows w beyond n chain P (MonadExcept.throw e) s (.error e, s) where
  grows := ⟨[], rfl⟩
  underWay := hs
  gives _ h := nomatch h
  keeps _ h := h
  reliable h _ := h
  value _ _ _ h := nomatch h
  refusal _ _ _ h := Except.error.inj h ▸ Refuses.throw n chain e

theorem Follows.bind_error {e : Error}
    (hy : Follows w beyond n chain P y s (.error e, s')) :
    Follows w beyond n chain Q (y >>= g) s (.error e, s') where
  grows := hy.grows
  underWay := hy.underWay
  gives _ h := nomatch h
  keeps := hy.keeps
  reliable := hy.reliable
  value _ _ _ h := nomatch h
  refusal hs hlog _ h := Except.error.inj h ▸ (hy.refusal hs hlog e rfl).bind g

theorem Follows.bind_ok {a : α} {run : Except Error β × (Memo × List Asking)}
    (hy : Follows w beyond n chain P y s (.ok a, s'))
    (hg : Follows w beyond n chain Q (g a) s' run) :
    Follows w beyond n chain Q (y >>= g) s run := by
  obtain ⟨new, hnew⟩ := hy.grows
  obtain ⟨new', hnew'⟩ := hg.grows
  have hbefore : NoReentry run.2.2 → NoReentry s'.2 := by
    intro hlog b hb
    exact hlog b (hnew' ▸ List.mem_append_right new' hb)
  refine
    { grows := ⟨new' ++ new, by rw [hnew', show s'.2 = new ++ s.2 from hnew, List.append_assoc]⟩
      underWay := hg.underWay
      gives := hg.gives
      keeps := fun q hq => hg.keeps q (hy.keeps q hq)
      reliable := fun hs hlog => hg.reliable (hy.reliable hs (hbefore hlog)) hlog
      value := fun hs hlog b hb => ?_
      refusal := fun hs hlog e he => ?_ }
  · have hvalue := hy.value hs (hbefore hlog) a rfl
    exact hvalue.bind hg.keeps (hg.value (hy.reliable hs (hbefore hlog)) hlog b hb)
  · have hvalue := hy.value hs (hbefore hlog) a rfl
    exact hvalue.bind_refuses hy.underWay (hg.refusal (hy.reliable hs (hbefore hlog)) hlog e he)

theorem Follows.mono {P' : α → Prop} {run : Except Error α × (Memo × List Asking)}
    (hy : Follows w beyond n chain P y s run) (hP : ∀ a, P a → P' a) :
    Follows w beyond n chain P' y s run :=
  { hy with gives := fun a h => hP a (hy.gives a h) }

end Follows

variable (w beyond) in
/-- A traced computation tells of a plain one while a chain of questions is under way. -/
def transparent (n : Nat) (chain : List Question) : Simulation Traced Deduction where
  Rel P x y := ∀ s, w.UnderWay chain s.1 →
    Follows w beyond n chain P y s (exec (x.run chain) s)
  Allowed _ := True
  pure ha _ hs := Follows.pure ha hs
  throw _ _ hs := Follows.throw hs
  bind {α β P Q x y f g} hxy hfg s hs := by
    have hy := hxy s hs
    rw [Traced.run_bind]
    rcases hrun : exec (x.run chain) s with ⟨e | a, s'⟩
    · rw [hrun] at hy
      exact hy.bind_error
    · rw [hrun] at hy
      exact hy.bind_ok (hfg a (hy.gives a rfl) s' hy.underWay)
  mono hPQ hxy := by
    intro s hs
    exact (hxy s hs).mono hPQ
  allowed _ := trivial

/-- No question is taken up while as many are under way as the world has. -/
theorem transparent_of_depthBound_lt {n : Nat} {chain : List Question}
    (hlength : w.depthBound < chain.length) {α : Type} {P : α → Prop} (x : Traced α)
    (y : Deduction α) : (transparent w beyond n chain).Rel P x y := by
  intro s hs
  exact absurd hs.length_le (Nat.not_le.mpr hlength)

/-- What is said of plain computations says nothing of those with no nested inferences left. -/
theorem transparent_zero {n : Nat} {chain : List Question} {α : Type} {P : α → Prop} {x : Traced α}
    {y : Deduction α} (h : (transparent w beyond n chain).Rel P x y) (y' : Deduction α) :
    (transparent w beyond 0 chain).Rel P x y' := by
  intro s hs
  have hy := h s hs
  refine
    { grows := hy.grows
      underWay := hy.underWay
      gives := hy.gives
      keeps := hy.keeps
      reliable := hy.reliable
      value := fun _ _ _ _ chain' memo hmemo hlength _ => ?_
      refusal := fun _ _ _ _ chain' memo hmemo hlength _ => ?_ }
  · rw [Nat.zero_add] at hlength
    exact absurd hmemo.length_le (Nat.not_le.mpr hlength)
  · rw [Nat.zero_add] at hlength
    exact absurd hmemo.length_le (Nat.not_le.mpr hlength)

/-! ## One question -/

section Question

variable {n : Nat} {chain : List Question} {q : Question} {rule : Rule}

/-- An answer that came out in the chain of its question comes out for the question itself, in all
chains that avoid the question too. -/
theorem yields_anew {known : Memo} {v : Float} (hq : w.Poses q rule)
    (hknown : w.UnderWay (q :: chain) known)
    (hv : Yields w n known
      (World.ruleStrength (w.reasonerAt World.reevaluated beyond n) rule q.domain q.target) v) :
    Yields w (n + 1) (known.insert q (.done v)) (anew w beyond n q rule) (some v) := by
  intro chain' memo hmemo hlength havoid
  have hnew : q ∉ chain' := fun hmem => havoid q hmem ⟨v, by rw [Table.get?_insert, if_pos rfl]⟩
  have havoid' : ∀ p ∈ q :: chain', ¬ Answered known p := by
    rintro p hp ⟨u, hu⟩
    rcases List.mem_cons.mp hp with rfl | hp
    · rw [(hknown.running p).mpr List.mem_cons_self] at hu
      nomatch hu
    · have hne : p ≠ q := fun h => hnew (h ▸ hp)
      exact havoid p hp ⟨u, by rw [Table.get?_insert, if_neg hne, hu]⟩
  obtain ⟨memo', hrun, hmemo'⟩ := hv (q :: chain') (memo.insert q .running)
    (hmemo.begin hq hnew) (by rw [List.length_cons]; omega) havoid'
  refine ⟨memo'.insert q (.done v), ?_, hmemo'.finish v⟩
  have hidle : memo.get? q ≠ some .running := fun h => hnew ((hmemo.running q).mp h)
  rw [anew, World.exec_reevaluated hidle, hrun]

/-- A refusal in the chain of a question is a refusal of the question. -/
theorem refuses_anew {e : Error} (hq : w.Poses q rule) (hnew : q ∉ chain)
    (he : Refuses w n (q :: chain)
      (World.ruleStrength (w.reasonerAt World.reevaluated beyond n) rule q.domain q.target) e) :
    Refuses w (n + 1) chain (anew w beyond n q rule) e := by
  intro chain' memo hmemo hlength hsub
  have hnew' : q ∉ chain' := fun hmem => hnew (hsub hmem)
  obtain ⟨memo', hrun, hmemo'⟩ := he (q :: chain') (memo.insert q .running)
    (hmemo.begin hq hnew') (by rw [List.length_cons]; omega) (List.cons_subset_cons q hsub)
  refine ⟨memo'.erase q, ?_, hmemo'.abort⟩
  have hidle : memo.get? q ≠ some .running := fun h => hnew' ((hmemo.running q).mp h)
  rw [anew, World.exec_reevaluated hidle, hrun]

theorem Reliable.insert_running {memo : Memo} (h : Reliable w beyond memo)
    (hq : memo.get? q = none) : Reliable w beyond (memo.insert q .running) :=
  fun p v rule' hp hposed n => (h p v rule' (Memo.done_of_insert_running hp) hposed n).mono
    fun _ hr => (answered_insert_running hq).mpr hr

theorem Reliable.erase {memo : Memo} (h : Reliable w beyond memo)
    (hmemo : w.UnderWay (q :: chain) memo) : Reliable w beyond (memo.erase q) :=
  fun p v rule' hp hposed n => (h p v rule' (Memo.done_of_erase hp) hposed n).mono
    fun _ hr => answered_erase hmemo hr

/-- A new answer is good by itself, and leaves the others good. -/
theorem Reliable.insert_done {memo : Memo} {v : Float} (h : Reliable w beyond memo)
    (hv : ∀ rule, w.Poses q rule → ∀ n,
      Yields w (n + 1) (memo.insert q (.done v)) (anew w beyond n q rule) (some v)) :
    Reliable w beyond (memo.insert q (.done v)) := by
  intro p u rule' hp hposed n
  rcases Memo.done_of_insert_done hp with ⟨rfl, rfl⟩ | hold
  · exact hv rule' hposed n
  · exact (h p u rule' hold hposed n).mono fun r hr => answered_insert_done v hr

/-- One question.  What is recalled was learnt before; what is taken up is learnt now, for every
number of nested inferences at once. -/
theorem transparent_remembered {x : Traced Float} (hq : w.Poses q rule)
    (hx : ∀ n, (transparent w beyond n (q :: chain)).Related x
      (World.ruleStrength (w.reasonerAt World.reevaluated beyond n) rule q.domain q.target)) :
    (transparent w beyond (n + 1) chain).Related (Traced.remembered q x)
      (anew w beyond n q rule) := by
  intro s hs
  rw [Traced.run_remembered]
  cases hget : s.1.get? q with
  | some progress =>
      cases progress with
      | running =>
          -- a reentry, of which nothing is said
          have hreentry : ¬ NoReentry ((⟨chain, q, .reentrant⟩ : Asking) :: s.2) := fun h =>
            h _ List.mem_cons_self rfl
          exact
            { grows := ⟨[_], rfl⟩
              underWay := hs
              gives := fun _ _ => trivial
              keeps := fun _ h => h
              reliable := fun _ hlog => absurd hlog hreentry
              value := fun _ hlog => absurd hlog hreentry
              refusal := fun _ hlog => absurd hlog hreentry }
      | done v =>
          -- recalled: the memory is reliable, so the rule comes to the same when asked anew
          exact
            { grows := ⟨[_], rfl⟩
              underWay := hs
              gives := fun _ _ => trivial
              keeps := fun _ h => h
              reliable := fun h _ => h
              value := fun h _ a ha => Except.ok.inj ha ▸ h q v rule hget hq n
              refusal := fun _ _ _ h => nomatch h }
  | none =>
      have hnew : q ∉ chain := hs.not_mem (by rw [hget]; exact fun h => nomatch h)
      dsimp only
      have hrun := fun n => hx n (s.1.insert q .running, ⟨chain, q, .fresh⟩ :: s.2)
        (hs.begin hq hnew)
      generalize exec (x.run (q :: chain)) (s.1.insert q .running, ⟨chain, q, .fresh⟩ :: s.2) = run
        at hrun ⊢
      rcases run with ⟨e | v, s'⟩
      · -- taken up and given up: the entry goes, and the others stay as they are
        obtain ⟨new, hgrows⟩ := (hrun n).grows
        exact
          { grows := ⟨new ++ [_], by rw [List.append_assoc]; exact hgrows⟩
            underWay := (hrun n).underWay.abort
            gives := fun _ _ => trivial
            keeps := fun p hp => answered_erase (hrun n).underWay
              ((hrun n).keeps p ((answered_insert_running hget).mpr hp))
            reliable := fun h hlog => ((hrun n).reliable (h.insert_running hget) hlog).erase
              (hrun n).underWay
            value := fun _ _ _ h => nomatch h
            refusal := fun h hlog _ he => Except.error.inj he ▸
              refuses_anew hq hnew ((hrun n).refusal (h.insert_running hget) hlog e rfl) }
      · -- taken up and answered: what was learnt holds in every chain without the question
        obtain ⟨new, hgrows⟩ := (hrun n).grows
        have hanew : Reliable w beyond s.1 → NoReentry s'.2 → ∀ n, Yields w (n + 1)
            (s'.1.insert q (.done v)) (anew w beyond n q rule) (some v) := fun h hlog n =>
          yields_anew hq (hrun n).underWay
            ((hrun n).value (h.insert_running hget) hlog v rfl)
        exact
          { grows := ⟨new ++ [_], by rw [List.append_assoc]; exact hgrows⟩
            underWay := (hrun n).underWay.finish v
            gives := fun _ _ => trivial
            keeps := fun p hp => answered_insert_done v
              ((hrun n).keeps p ((answered_insert_running hget).mpr hp))
            reliable := fun h hlog => ((hrun n).reliable (h.insert_running hget) hlog).insert_done
              fun rule' hq' => hq.unique hq' ▸ hanew h hlog
            value := fun h hlog _ ha => Except.ok.inj ha ▸ hanew h hlog n
            refusal := fun _ _ _ h => nomatch h }

end Question

/-! ## Whole queries -/

/-- The induction goes down the nested inferences of the traced run, for all numbers of those that
the plain run has left. -/
theorem transparent_reasonerAt (beyond' : Inquiry Traced) (m n : Nat) (chain : List Question)
    (hm : w.depthBound < m + chain.length) :
    (transparent w beyond n chain).Reasoners (w.reasonerAt Traced.remembered beyond' m)
      (w.reasonerAt World.reevaluated beyond n) := by
  induction m generalizing n chain with
  | zero =>
      rw [Nat.zero_add] at hm
      cases n with
      | zero => exact Simulation.reasonerWith fun _ _ _ _ => transparent_of_depthBound_lt hm _ _
      | succ n => exact Simulation.reasonerWith fun _ _ _ _ => transparent_of_depthBound_lt hm _ _
  | succ m ih =>
      have hanswers : ∀ n, (transparent w beyond (n + 1) chain).Answers w Traced.remembered
          World.reevaluated (w.reasonerAt Traced.remembered beyond' m)
          (w.reasonerAt World.reevaluated beyond n) := by
        intro n q rule hq
        refine transparent_remembered hq fun n => ?_
        have hr := ih n (q :: chain) (by rw [List.length_cons]; omega)
        exact Simulation.ruleStrength hr rule q.domain q.target
      cases n with
      | zero =>
          refine Simulation.reasonerWith fun domain relation target conditions => ?_
          exact transparent_zero
            (Simulation.inferValues (hanswers 0) domain relation target conditions) _
      | succ n => exact Simulation.reasonerWith (Simulation.inferValues (hanswers n))

/-- A query in which no question comes up while it is under way comes to what it comes to if no
answer is ever remembered, a value or an error, however many nested inferences beyond the bound
there may be. -/
theorem KnowledgeBase.infer_eq_reevaluated (kb : KnowledgeBase) (domain : Subject)
    (relation : String) (target : Subject) (conditions : Bool)
    (hlog : ∀ a ∈ (kb.toWorld.trace domain relation target conditions).log, a.reply ≠ .reentrant)
    (beyond : Inquiry Deduction) (n : Nat)
    (hn : kb.ontology.ruleCount * (kb.subjectCount * kb.subjectCount) < n) :
    (exec (KnowledgeBase.infer domain relation target conditions) kb).1 =
      (exec (kb.toWorld.inferSubjects World.reevaluated
        (kb.toWorld.reasonerAt World.reevaluated beyond n) domain relation target conditions) ∅).1 := by
  rw [KnowledgeBase.infer_eq_trace]
  have hanswers : (transparent kb.toWorld beyond (n + 1) []).Answers kb.toWorld Traced.remembered
      World.reevaluated
      (kb.toWorld.reasonerAt Traced.remembered (fun _ _ _ _ => return .unknown)
        (kb.toWorld.depthBound + 1))
      (kb.toWorld.reasonerAt World.reevaluated beyond n) := by
    intro q rule hq
    refine transparent_remembered hq fun n => ?_
    have hr : (transparent kb.toWorld beyond n [q]).Reasoners _ _ := transparent_reasonerAt
      (fun _ _ _ _ => return .unknown) (kb.toWorld.depthBound + 1) n [q] (by omega)
    exact Simulation.ruleStrength hr rule q.domain q.target
  have hrun := Simulation.inferSubjects hanswers domain relation target conditions (∅, [])
    (World.UnderWay.empty kb.toWorld)
  have hempty : Reliable kb.toWorld beyond ∅ := fun q v rule hq => nomatch hq
  dsimp only
  cases houtcome : (kb.toWorld.trace domain relation target conditions).outcome with
  | ok a =>
      obtain ⟨memo, hmemo, -⟩ := hrun.value hempty hlog a houtcome [] ∅
        (World.UnderWay.empty kb.toWorld) (by unfold World.depthBound; omega) fun _ h =>
          absurd h List.not_mem_nil
      rw [hmemo]
  | error e =>
      obtain ⟨memo, hmemo, -⟩ := hrun.refusal hempty hlog e houtcome [] ∅
        (World.UnderWay.empty kb.toWorld) (by unfold World.depthBound; omega) fun _ h => h
      rw [hmemo]

/-- A relation that asks for another one twice, the second time without conditional rules. -/
def World.repeating : World :=
  .single [("holds", []), ("repeats", [
    ⟨"%=holds=@", 0.5, .relation "holds" (.slot .domain) (.slot .target) false⟩,
    ⟨"facts(%=holds=@)", 0.5,
      .builtin .facts [.relation "holds" (.slot .domain) (.slot .target) false]⟩])]

/-- Its second question is answered from memory, with what comes out without one. -/
theorem KnowledgeBase.infer_eq_reevaluated_repeating :
    let t := World.repeating.trace (.concept "A") "repeats" (.concept "A") true
    (∃ a ∈ t.log, a.reply = .recalled 1) ∧ (∀ a ∈ t.log, a.reply ≠ .reentrant) ∧
      (exec (KnowledgeBase.infer (.concept "A") "repeats" (.concept "A") true)
          { toWorld := World.repeating }).1 =
        (exec (World.repeating.inferSubjects World.reevaluated
          (World.repeating.reasonerAt World.reevaluated (fun _ _ _ _ => return .unknown) 3)
          (.concept "A") "repeats" (.concept "A") true) ∅).1 := by
  intro t
  have hrecalled : ∃ a ∈ t.log, a.reply = .recalled 1 := by decide +kernel
  have hlog : ∀ a ∈ t.log, a.reply ≠ .reentrant := by decide +kernel
  exact ⟨hrecalled, hlog, KnowledgeBase.infer_eq_reevaluated { toWorld := World.repeating }
    (.concept "A") "repeats" (.concept "A") true hlog (fun _ _ _ _ => return .unknown) 3
    (by decide +kernel)⟩

end Credence
