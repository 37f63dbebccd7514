import Credence.Proofs.KnowledgeBase.Ingestion
import Credence.Proofs.KnowledgeBase.Operations
import Credence.Service.Basic

/-!
# Requests one after the other

Only what is learnt makes a difference to later requests (`Service.responses_eq_of_learning`).  All
the others change no more than the memory, and what they leave there is not seen by anybody: a
question starts from a fresh memory, and learning never looks into it.

Runs are compared by what they show, which is all but the memory (`KnowledgeBase.shown`).  Two facts
about a single request carry the rest along a row of them: it shows the same whatever is remembered
(`Service.oblivious_handle`), and unless it teaches, it shows the knowledge base it was given
(`Service.quiet_handle`).
-/

namespace Credence

namespace KnowledgeBase

variable {α β : Type}

/-- What can be seen of a run: its result, and the knowledge base apart from what it remembers. -/
def shown (run : β × KnowledgeBase) : β × KnowledgeBase := (run.1, run.2.reset)

/-- A run shows the same whatever is remembered. -/
def Oblivious (f : KnowledgeBase → β × KnowledgeBase) : Prop :=
  ∀ kb, shown (f kb) = shown (f kb.reset)

theorem Oblivious.congr {f : KnowledgeBase → β × KnowledgeBase} (h : Oblivious f)
    {kb kb' : KnowledgeBase} (hsame : kb.reset = kb'.reset) : shown (f kb) = shown (f kb') := by
  rw [h kb, h kb', hsame]

theorem Oblivious.map {f : KnowledgeBase → α × KnowledgeBase} (h : Oblivious f) (g : α → β) :
    Oblivious fun kb => (g (f kb).1, (f kb).2) := fun kb =>
  Prod.ext (congrArg g (Prod.mk.inj (h kb)).1) (Prod.mk.inj (h kb)).2

theorem oblivious_pure (b : β) : Oblivious fun kb => (b, kb) := fun _ => rfl

theorem Oblivious.bind {x : Step α} {f : α → Step β} (hx : Oblivious (exec x))
    (hf : ∀ a, Oblivious (exec (f a))) : Oblivious (exec (x >>= f)) := by
  intro kb
  obtain ⟨hresult, hleft⟩ := Prod.mk.inj (hx kb)
  rw [exec_bind, exec_bind]
  generalize exec x kb = run at hresult hleft
  generalize exec x kb.reset = run' at hresult hleft
  obtain ⟨outcome, kb₁⟩ := run
  obtain ⟨outcome', kb₂⟩ := run'
  obtain rfl : outcome = outcome' := hresult
  cases outcome with
  | error e => exact Prod.ext rfl hleft
  | ok a => exact (hf a).congr hleft

/-! ## Learning does not look into the memory -/

theorem conclude_congr {kb kb' : KnowledgeBase} (h : kb.reset = kb'.reset) (a : Annotation)
    (created : Nat) : kb.conclude a created = kb'.conclude a created := by
  show kb.reset.conclude a created = kb'.reset.conclude a created
  rw [h]

theorem reset_keep (kb : KnowledgeBase) (i? : Option Instance) :
    (kb.reset.keep i?).reset = (kb.keep i?).reset := by
  cases i? <;> rfl

theorem toWorld_keep_reset (kb : KnowledgeBase) (i? : Option Instance) :
    (kb.reset.keep i?).toWorld = (kb.keep i?).toWorld := by
  cases i? <;> rfl

theorem oblivious_ingestAnnotation (a : Annotation) : Oblivious (exec ( ingestAnnotation a)) := by
  intro kb
  cases hskips : kb.ontology.skips a with
  | true =>
      have hskips' : kb.reset.ontology.skips a = true := hskips
      rw [exec_ingestAnnotation_skipped hskips, exec_ingestAnnotation_skipped hskips']
      rfl
  | false =>
  have hskips' : kb.reset.ontology.skips a = false := hskips
  cases hr : kb.ontology.relations.get? a.relation with
  | none =>
      rw [exec_ingestAnnotation_unknown hskips hr, exec_ingestAnnotation_unknown hskips' hr]
      rfl
  | some r =>
  rw [exec_ingestAnnotation_allowed hskips hr, exec_ingestAnnotation_allowed hskips' hr]
  have hworld : kb.reset.toWorld = kb.toWorld := rfl
  rw [hworld]
  cases entityCategory kb.toWorld a.domain with
  | error e => rfl
  | ok category =>
  cases entityCategory kb.toWorld a.target with
  | error e => rfl
  | ok category' =>
  dsimp only
  cases World.newInstance kb.toWorld a.domain with
  | error e => rfl
  | ok i? =>
  dsimp only
  rw [toWorld_keep_reset]
  cases World.newInstance (kb.keep i?).toWorld a.target with
  | error e => exact Prod.ext rfl (reset_keep kb i?).symm
  | ok k? =>
  dsimp only
  refine congrArg shown (conclude_congr ?_ a _)
  rw [← reset_keep, ← reset_keep kb, reset_keep]

theorem oblivious_ingestAnnotations (as : List Annotation) :
    Oblivious (exec (ingestAnnotations as)) := by
  induction as with
  | nil => exact oblivious_pure _
  | cons a rest ih =>
      refine Oblivious.bind ( oblivious_ingestAnnotation a) fun _ => ?_
      exact ih.bind fun _ => oblivious_pure _

theorem oblivious_ingest (texts : List AnnotatedText) : Oblivious (exec (ingest texts)) := by
  intro kb
  rw [exec_ingest, exec_ingest]
  exact (oblivious_ingestAnnotations (texts.flatMap AnnotatedText.annotations)).map
    (Except.map (Report.plus { documents := texts.length })) kb

/-! ## Questions start from a fresh memory -/

theorem exec_infer_reset (domain : Subject) (relation : String) (target : Subject)
    (conditions : Bool) (kb : KnowledgeBase) :
    exec (infer domain relation target conditions) kb.reset =
      exec (infer domain relation target conditions) kb := by
  rw [infer_eq_trace, infer_eq_trace]
  rfl

/-- A question leaves behind only what is remembered. -/
theorem reset_infer (domain : Subject) (relation : String) (target : Subject) (conditions : Bool)
    (kb : KnowledgeBase) :
    (exec (infer domain relation target conditions) kb).2.reset = kb.reset := by
  rw [infer_eq_trace]
  rfl

end KnowledgeBase

namespace Service

open Json KnowledgeBase

/-! ## One request -/

/-- A run changes no more than the memory. -/
def Quiet {β : Type} (f : KnowledgeBase → β × KnowledgeBase) : Prop :=
  ∀ kb, (f kb).2.reset = kb.reset

theorem exec_verdict (q : InferRequest) (kb : KnowledgeBase) :
    exec (verdict q) kb =
      match kb.resolve q.domain, kb.resolve q.target with
      | .error e, _ => (.error e, kb)
      | .ok _, .error e => (.error e, kb)
      | .ok d, .ok t => exec (infer d q.relation t q.conditions) kb := by
  unfold verdict
  rw [exec_bind_ok (exec_get kb)]
  dsimp only
  cases kb.resolve q.domain with
  | error e => rfl
  | ok d => cases kb.resolve q.target <;> rfl

theorem oblivious_verdict (q : InferRequest) : Oblivious (exec (verdict q)) := by
  intro kb
  rw [exec_verdict, exec_verdict]
  have hworld : kb.reset.toWorld = kb.toWorld := rfl
  rw [hworld]
  cases kb.resolve q.domain with
  | error e => rfl
  | ok d =>
      cases kb.resolve q.target with
      | error e => rfl
      | ok t =>
          dsimp only
          rw [exec_infer_reset]

theorem quiet_verdict (q : InferRequest) : Quiet (exec (verdict q)) := by
  intro kb
  rw [exec_verdict]
  cases kb.resolve q.domain with
  | error e => rfl
  | ok d =>
      cases kb.resolve q.target with
      | error e => rfl
      | ok t => exact reset_infer d q.relation t q.conditions kb

section Parts

variable {α : Type}

/-- The response to a step that has been carried out. -/
def outcomeOf (respond : α → Json) : Except Error α → Response
  | .ok a => .done (respond a)
  | .error e => .refusal e

theorem run_carryOut (step : Step α) (respond : α → Json) (kb : KnowledgeBase) :
    (carryOut step respond).run kb = (outcomeOf respond (exec step kb).1, (exec step kb).2) := by
  unfold carryOut
  rw [StateT.run_bind]
  unfold exec
  rcases step.run.run kb with ⟨e | a, kb'⟩ <;> rfl

theorem oblivious_carryOut {step : Step α} (h : Oblivious (exec step)) (respond : α → Json) :
    Oblivious (carryOut step respond).run := by
  intro kb
  rw [run_carryOut, run_carryOut]
  exact h.map (outcomeOf respond) kb

theorem quiet_carryOut {step : Step α} (h : Quiet (exec step)) (respond : α → Json) :
    Quiet (carryOut step respond).run := by
  intro kb
  rw [run_carryOut]
  exact h kb

/-- A body is read or refused without a look at the knowledge base. -/
theorem reading_cases (r : Request) (decoder : Decoder α)
    (next : α → StateM KnowledgeBase Response) :
    (∃ a, reading r decoder next = next a) ∨
      ∃ status, reading r decoder next = pure (.bare status) := by
  unfold reading
  split
  · exact .inr ⟨_, rfl⟩
  · split
    · exact .inl ⟨_, rfl⟩
    · exact .inr ⟨_, rfl⟩
    · exact .inr ⟨_, rfl⟩

theorem oblivious_reading (r : Request) (decoder : Decoder α)
    {next : α → StateM KnowledgeBase Response} (h : ∀ a, Oblivious (next a).run) :
    Oblivious (reading r decoder next).run := by
  rcases reading_cases r decoder next with ⟨a, ha⟩ | ⟨status, hstatus⟩
  · rw [ha]
    exact h a
  · rw [hstatus]
    exact oblivious_pure _

theorem quiet_reading (r : Request) (decoder : Decoder α)
    {next : α → StateM KnowledgeBase Response} (h : ∀ a, Quiet (next a).run) :
    Quiet (reading r decoder next).run := by
  rcases reading_cases r decoder next with ⟨a, ha⟩ | ⟨status, hstatus⟩
  · rw [ha]
    exact h a
  · rw [hstatus]
    exact fun _ => rfl

end Parts

theorem oblivious_perform (r : Request) (c : Command) : Oblivious (perform r c).run := by
  cases c with
  | infer => exact oblivious_reading r _ fun q => oblivious_carryOut (oblivious_verdict q) _
  | learn => exact oblivious_reading r _ fun texts => oblivious_carryOut (oblivious_ingest texts) _
  | extract => exact oblivious_reading r _ fun _ _ => rfl
  | reset => exact fun _ => rfl

theorem quiet_perform (r : Request) {c : Command} (hc : c ≠ .learn) :
    Quiet (perform r c).run := by
  cases c with
  | infer => exact quiet_reading r _ fun q => quiet_carryOut (quiet_verdict q) _
  | learn => exact absurd rfl hc
  | extract => exact quiet_reading r _ fun _ _ => rfl
  | reset => exact fun _ => rfl

/-- A request carries out a command, or is answered with a look at the world. -/
theorem handle_cases (r : Request) :
    (∃ c, r.method = .post ∧ Route.ofTarget? r.target = some (.command c) ∧
      handle r = perform r c) ∨
    ∃ respond : World → Response, handle r = do return respond (← get).toWorld := by
  unfold handle
  split
  · exact .inr ⟨fun _ => .bare 200, rfl⟩
  split
  · exact .inr ⟨fun _ => .bare 404, rfl⟩
  · split
    · exact .inr ⟨fun w => answer w _, rfl⟩
    · exact .inr ⟨fun w => (answer w _).withoutBody, rfl⟩
    · exact .inr ⟨fun _ => .bare 405, rfl⟩
  · rename_i c hroute
    split
    · rename_i hpost
      exact .inl ⟨c, hpost, hroute, rfl⟩
    · exact .inr ⟨fun _ => .bare 405, rfl⟩

/-- No request sees what is remembered. -/
theorem oblivious_handle (r : Request) : Oblivious (handle r).run := by
  rcases handle_cases r with ⟨c, -, -, hperform⟩ | ⟨respond, hlook⟩
  · rw [hperform]
    exact oblivious_perform r c
  · rw [hlook]
    exact fun _ => rfl

/-- Whether a request is one to learn, be it refused or not. -/
def Request.teaches (r : Request) : Bool :=
  r.method = .post && Route.ofTarget? r.target = some (.command .learn)

/-- A request that does not teach leaves behind only what is remembered. -/
theorem quiet_handle {r : Request} (h : r.teaches = false) : Quiet (handle r).run := by
  rcases handle_cases r with ⟨c, hpost, hroute, hperform⟩ | ⟨respond, hlook⟩
  · rw [hperform]
    refine quiet_perform r fun hc => ?_
    rw [Request.teaches, hpost, hroute, hc] at h
    cases h
  · rw [hlook]
    exact fun _ => rfl

/-! ## A row of requests -/

/-- The response to a request. -/
def respond (kb : KnowledgeBase) (r : Request) : Response := ((handle r).run kb).1

/-- The knowledge base after a request. -/
def next (kb : KnowledgeBase) (r : Request) : KnowledgeBase := ((handle r).run kb).2

/-- The knowledge base after some requests. -/
def served (kb : KnowledgeBase) (requests : List Request) : KnowledgeBase := requests.foldl next kb

/-- The responses to some requests, each from where the one before has left. -/
def responses (kb : KnowledgeBase) : List Request → List Response
  | [] => []
  | r :: rest => respond kb r :: responses (next kb r) rest

variable {kb kb' : KnowledgeBase}

theorem respond_congr (h : kb.reset = kb'.reset) (r : Request) : respond kb r = respond kb' r :=
  (Prod.mk.inj ((oblivious_handle r).congr h)).1

theorem reset_next_congr (h : kb.reset = kb'.reset) (r : Request) :
    (next kb r).reset = (next kb' r).reset :=
  (Prod.mk.inj ((oblivious_handle r).congr h)).2

theorem reset_served_congr (h : kb.reset = kb'.reset) (requests : List Request) :
    (served kb requests).reset = (served kb' requests).reset := by
  induction requests generalizing kb kb' with
  | nil => exact h
  | cons r rest ih => exact ih (reset_next_congr h r)

theorem responses_congr (h : kb.reset = kb'.reset) (requests : List Request) :
    responses kb requests = responses kb' requests := by
  induction requests generalizing kb kb' with
  | nil => rfl
  | cons r rest ih =>
      unfold responses
      rw [respond_congr h, ih (reset_next_congr h r)]

/-- Requests that do not teach can be left out. -/
theorem reset_served_filter (kb : KnowledgeBase) (requests : List Request) :
    (served kb (requests.filter Request.teaches)).reset = (served kb requests).reset := by
  induction requests generalizing kb with
  | nil => rfl
  | cons r rest ih =>
      cases hteaches : r.teaches with
      | true =>
          rw [List.filter_cons_of_pos hteaches]
          exact ih (next kb r)
      | false =>
          rw [List.filter_cons_of_neg (by rw [hteaches]; exact Bool.false_ne_true)]
          exact (reset_served_congr (quiet_handle hteaches kb).symm _).trans (ih (next kb r))

/-- Each response is that to the requests before it and itself. -/
theorem responses_eq_mapIdx (kb : KnowledgeBase) (requests : List Request) :
    responses kb requests = requests.mapIdx fun i r => respond (served kb (requests.take i)) r := by
  induction requests generalizing kb with
  | nil => rfl
  | cons r rest ih =>
      rw [responses, ih, List.mapIdx_cons]
      rfl

theorem reset_served_quiet (kb : KnowledgeBase) {requests : List Request}
    (h : ∀ r ∈ requests, r.teaches = false) : (served kb requests).reset = kb.reset := by
  have hnone : requests.filter Request.teaches = [] :=
    List.filter_eq_nil_iff.mpr fun r hr hteaches => by
      rw [h r hr] at hteaches
      cases hteaches
  rw [← reset_served_filter, hnone]
  rfl

end Service

end Credence
