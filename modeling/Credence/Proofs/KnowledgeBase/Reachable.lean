import Credence.Annotation.Ingestion
import Credence.Proofs.World.Statics

/-!
# What steps can make of an empty knowledge base

`KnowledgeBase.Reachable` holds of every knowledge base without anything in it, and of what any step
makes of one that it holds of, whether the step fails or not.  A step that changes the ontology may
do so by any program that makes reachable ontologies of reachable ones.

A reachable knowledge base is *sound*: its ontology is reachable, so it is up to date, and all
instances live in existing concepts.
-/

namespace Credence.KnowledgeBase

variable {kb : KnowledgeBase} {α β : Type}

/-- The ontology is reachable, and all instances live in existing concepts. -/
structure Sound (kb : KnowledgeBase) : Prop where
  ontology : kb.ontology.Reachable
  housed : kb.Housed

/-- A step that makes sound knowledge bases of sound ones, even if it fails. -/
def Sustains (x : Step α) : Prop := ∀ kb : KnowledgeBase, kb.Sound → (exec x kb).2.Sound

theorem Sustains.sound {x : Step α} (hx : Sustains x) {outcome : Except Error α}
    {kb' : KnowledgeBase} (h : kb.Sound) (hrun : exec x kb = (outcome, kb')) : kb'.Sound := by
  have hsound := hx kb h
  rwa [hrun] at hsound

theorem exec_accept_ok (a : α) (kb : KnowledgeBase) : exec (accept (.ok a)) kb = (.ok a, kb) := rfl

theorem preserves_accept {P : KnowledgeBase → Prop} (e : Except Error α) :
    Preserves P (accept e) := preserves_ofExcept e

theorem sustains_reset : Sustains (modify reset : Step PUnit) :=
  preserves_modify fun _ h => ⟨h.1, h.2⟩

theorem exec_mint (kb : KnowledgeBase) :
    exec mint kb = (.ok kb.supply.next, { kb with supply := kb.supply.advance }) := rfl

theorem sustains_mint : Sustains mint := by
  intro kb h
  rw [exec_mint]
  exact ⟨h.1, h.2⟩

/-! ## Changes of the ontology -/

/-- The ontology changes, the registry follows, and of two errors that of the ontology comes out. -/
theorem exec_update {change : Ontology.Change α} {outcome : Except Error α} {o : Ontology}
    {synced : Except Error Unit} {w : World} (hchange : exec change kb.ontology = (outcome, o))
    (hsync : World.syncStatics { kb.toWorld with ontology := o } = (synced, w)) :
    exec (update change) kb =
      (outcome.bind fun a => synced.map fun _ => a,
        ({ kb with toWorld := w } : KnowledgeBase).reset) := by
  unfold update
  rw [exec_bind_ok (exec_get kb)]
  change exec (do
    let synced := World.syncStatics { kb.toWorld with ontology := (exec change kb.ontology).2 }
    set ({ kb with toWorld := synced.2 } : KnowledgeBase).reset
    let a ← accept (exec change kb.ontology).1
    accept synced.1
    return a : Step α) kb = _
  rw [hchange]
  dsimp only
  rw [hsync]
  cases outcome with
  | error e => rfl
  | ok a => cases synced <;> rfl

theorem sustains_update {change : Ontology.Change α}
    (hchange : ∀ o : Ontology, o.Reachable → (exec change o).2.Reachable) :
    Sustains (update change) := by
  intro kb h
  unfold update
  rw [exec_bind_ok (exec_get kb)]
  obtain ⟨hhoused, hsame⟩ := World.syncStatics_keeps ⟨(exec change kb.ontology).2, kb.registry⟩
  have hontology :
      (World.syncStatics ⟨(exec change kb.ontology).2, kb.registry⟩).2.ontology.Reachable := by
    rw [hsame]
    exact hchange kb.ontology h.ontology
  exact preserves_bind (P := Sound) (preserves_accept _)
    (fun a => preserves_bind (preserves_accept _) fun _ => preserves_pure a) _
    ⟨hontology, hhoused⟩

theorem sustains_rebuild : Sustains rebuild := by
  intro kb h
  unfold rebuild
  rw [exec_bind_ok (exec_get kb)]
  obtain ⟨hhoused, hsame⟩ := World.syncStatics_keeps ⟨kb.ontology.rebuild, kb.registry⟩
  have hontology : (World.syncStatics ⟨kb.ontology.rebuild, kb.registry⟩).2.ontology.Reachable := by
    rw [hsame]
    exact h.ontology.rebuild
  exact preserves_accept (P := Sound) _ _ ⟨hontology, hhoused⟩

/-- Choosing a factory replaces the instance of a static concept; the old one goes first, also when
the new one cannot be made. -/
theorem exec_setFactory (concept : String) (factory : Factory) (kb : KnowledgeBase) :
    exec (setFactory concept factory) kb =
      match kb.concept? concept with
      | none => (.error (.missing (.concept concept)), kb)
      | some c =>
        let ontology := kb.ontology.modifyConcept concept fun c =>
          { c with chosenFactory := some factory }
        let bare := kb.registry.erase (.singleton concept)
        if c.category = .static then
          match factory.create concept concept c.seed with
          | .ok i =>
            (.ok (), ({ kb with ontology, registry := bare.replace i } : KnowledgeBase).reset)
          | .error e => (.error e, { kb with ontology, registry := bare })
        else (.ok (), ({ kb with ontology } : KnowledgeBase).reset) := by
  unfold setFactory
  rw [exec_bind_ok (exec_get kb)]
  change exec (do
    let kb' := { kb with ontology := (exec (Ontology.setFactory concept factory) kb.ontology).2 }
    set kb'
    accept (exec (Ontology.setFactory concept factory) kb.ontology).1
    if (kb'.concept? concept).any fun c => c.category = .static then
      let bare := { kb'.toWorld with registry := kb'.registry.erase (.singleton concept) }
      set { kb' with toWorld := bare }
      let w ← accept (bare.materialize concept)
      set { kb' with toWorld := w }
    modify reset : Step Unit) kb = _
  rw [Ontology.exec_setFactory,
    show kb.ontology.concepts.get? concept = kb.concept? concept from rfl]
  cases hc : kb.concept? concept with
  | none => rfl
  | some c =>
      dsimp only
      generalize ho : (kb.ontology.modifyConcept concept fun c =>
        { c with chosenFactory := some factory }) = o
      have hnew : ∀ registry, World.concept? ⟨o, registry⟩ concept =
          some { c with chosenFactory := some factory } := by
        intro registry
        rw [← ho]
        exact (Ontology.get?_modifyConcept _ _ _ _).trans
          ((if_pos rfl).trans (congrArg (Option.map _) hc))
      rw [exec_bind_ok (exec_set _ _), exec_bind_ok (exec_accept_ok _ _), hnew, Option.any_some]
      by_cases hstatic : c.category = .static
      · rw [if_pos hstatic, if_pos (decide_eq_true hstatic), exec_bind_ok (exec_set _ _)]
        have hmade : World.materialize ⟨o, kb.registry.erase (.singleton concept)⟩ concept =
            (factory.create concept concept c.seed).map fun i =>
              ⟨o, (kb.registry.erase (.singleton concept)).replace i⟩ :=
          World.materialize_of_concept (hnew _)
        rw [hmade]
        cases factory.create concept concept c.seed <;> rfl
      · rw [if_neg hstatic, if_neg fun h => hstatic (of_decide_eq_true h)]
        rfl

theorem sustains_setFactory (concept : String) (factory : Factory) :
    Sustains (setFactory concept factory) := by
  intro kb h
  rw [exec_setFactory]
  cases hc : kb.concept? concept with
  | none => exact h
  | some c =>
      have hontology : (kb.ontology.modifyConcept concept fun c =>
          { c with chosenFactory := some factory }).Reachable := by
        have hreachable := h.ontology.setFactory concept factory
        rw [Ontology.exec_setFactory,
          show kb.ontology.concepts.get? concept = some c from hc] at hreachable
        exact hreachable
      dsimp only
      generalize ho : (kb.ontology.modifyConcept concept fun c =>
        { c with chosenFactory := some factory }) = o at hontology ⊢
      have hsame : ∀ name, o.hasConcept name = kb.ontology.hasConcept name := fun name => by
        rw [← ho]
        exact Table.contains_modify _ _ _ _
      have hhoused : ({ ontology := o, registry := kb.registry } : World).Housed :=
        fun name hname => (hsame name).trans (h.housed name hname)
      split
      · have herased := hhoused.erase (.singleton concept)
        cases hi : factory.create concept concept c.seed with
        | error e => exact ⟨hontology, herased⟩
        | ok i =>
            refine ⟨hontology, herased.replace ?_⟩
            rw [Factory.key_of_create hi]
            exact (hsame concept).trans (Ontology.hasConcept_of_get? hc)
      · exact ⟨hontology, hhoused⟩

/-! ## Instances and rules that are learnt -/

/-- Only dynamic concepts get new instances. -/
theorem concept_of_checkInstantiable {w : World} {concept : String} {properties : Properties}
    {c : Concept} (h : checkInstantiable w concept properties = .ok c) :
    w.concept? concept = some c ∧ c.category = .dynamic := by
  unfold checkInstantiable at h
  cases hc : w.concept? concept with
  | none =>
      rw [hc] at h
      nomatch h
  | some d =>
      rw [hc] at h
      dsimp only at h
      split at h
      · nomatch h
      · nomatch h
      · rename_i hdynamic
        split at h
        · nomatch h
        · cases h
          exact ⟨rfl, hdynamic⟩

theorem exec_register (i : Instance) (kb : KnowledgeBase) :
    exec (register i) kb =
      if kb.registry.contains i.key then (.error (.violation (.instanceExists i.key)), kb)
      else (.ok (), ({ kb with registry := kb.registry.replace i } : KnowledgeBase).reset) := by
  unfold register
  rw [exec_bind_ok (exec_get kb)]
  unfold Registry.insert
  split <;> rfl

/-- A property that new instances of dynamic concepts, taken identifiers and rules without
conditions preserve, and forgetting does.  Learning does nothing else. -/
structure Teachable (P : KnowledgeBase → Prop) : Prop where
  replace {kb : KnowledgeBase} {i : Instance} {c : Concept} (h : P kb)
    (hc : kb.concept? i.key.concept = some c) (hdynamic : c.category = .dynamic) :
    P ({ kb with registry := kb.registry.replace i } : KnowledgeBase).reset
  mint : Preserves P mint
  rule (relation : String) {rule : Rule} (hrule : rule.conditions = []) :
    Preserves P (update (Ontology.addRule relation rule))
  reset : Preserves P (modify reset : Step PUnit)

namespace Teachable

variable {P : KnowledgeBase → Prop}

theorem register (hP : Teachable P) {i : Instance} {c : Concept} (h : P kb)
    (hc : kb.concept? i.key.concept = some c) (hdynamic : c.category = .dynamic) :
    P (exec (register i) kb).2 := by
  rw [exec_register]
  split
  · exact h
  · exact hP.replace h hc hdynamic

theorem addInstance (hP : Teachable P) (i : Instance) : Preserves P (addInstance i) := by
  intro kb h
  unfold KnowledgeBase.addInstance
  rw [exec_bind_ok (exec_get kb)]
  cases hcheck : checkInstantiable kb.toWorld i.key.concept i.properties with
  | error e => exact h
  | ok c =>
      obtain ⟨hc, hdynamic⟩ := concept_of_checkInstantiable hcheck
      rw [exec_bind_ok (exec_accept_ok c kb)]
      exact hP.register h hc hdynamic

theorem createInstance (hP : Teachable P) (concept : String) (name? : Option String)
    (properties : Properties) : Preserves P (createInstance concept name? properties) := by
  intro kb h
  unfold KnowledgeBase.createInstance
  rw [exec_bind_ok (exec_get kb)]
  cases hcheck : checkInstantiable kb.toWorld concept properties with
  | error e => exact h
  | ok c =>
      obtain ⟨hc, hdynamic⟩ := concept_of_checkInstantiable hcheck
      rw [exec_bind_ok (exec_accept_ok c kb)]
      -- the part that remains when there is a name
      have hmake : ∀ (kb : KnowledgeBase) (name : String), P kb → kb.concept? concept = some c →
          P (exec (do
            let i ← accept (c.factory.create concept name (c.seed.override properties))
            KnowledgeBase.register i
            return i.key : Step InstanceKey) kb).2 := by
        intro kb name h hc
        cases hi : c.factory.create concept name (c.seed.override properties) with
        | error e => exact h
        | ok i =>
            have hregister := hP.register (i := i) h
              (by rw [Factory.key_of_create hi]; exact hc) hdynamic
            rw [exec_bind_ok (exec_accept_ok i kb), exec_bind]
            generalize exec (KnowledgeBase.register i) kb = run at hregister
            obtain ⟨outcome, kb'⟩ := run
            cases outcome with
            | error e => exact hregister
            | ok u => exact hregister
      cases name? with
      | some name =>
          rw [exec_bind_ok (exec_pure name kb)]
          exact hmake kb name h hc
      | none =>
          have hminted := hP.mint kb h
          rw [exec_mint] at hminted
          rw [exec_bind_ok (exec_mint kb), exec_bind_ok (exec_pure _ _)]
          exact hmake _ _ hminted hc

theorem entityInstance (hP : Teachable P) (e : Entity) (category : Category) :
    Preserves P (entityInstance e category) := by
  unfold KnowledgeBase.entityInstance
  split
  · exact preserves_pure _
  refine preserves_get_bind fun kb _ => ?_
  split
  · exact preserves_pure _
  exact preserves_bind (hP.createInstance _ _ _) fun _ => preserves_pure _

theorem ingestAnnotation (hP : Teachable P) (a : Annotation) :
    Preserves P <| ingestAnnotation a := by
  unfold KnowledgeBase.ingestAnnotation
  split
  · exact preserves_pure _
  refine preserves_get_bind fun kb _ => ?_
  split
  · exact preserves_throw _
  split
  · exact preserves_pure _
  refine preserves_get_bind fun kb _ => ?_
  refine preserves_bind (preserves_accept _) fun domainCategory => ?_
  refine preserves_get_bind fun kb _ => ?_
  refine preserves_bind (preserves_accept _) fun targetCategory => ?_
  refine preserves_bind (hP.entityInstance _ _) fun domain => ?_
  refine preserves_bind (hP.entityInstance _ _) fun target => ?_
  refine preserves_bind hP.mint fun id => ?_
  exact preserves_bind (hP.rule a.relation rfl) fun _ => preserves_pure _

theorem ingestAnnotations (hP : Teachable P) (annotations : List Annotation) :
    Preserves P (ingestAnnotations annotations) := by
  induction annotations with
  | nil => exact preserves_pure _
  | cons a rest ih =>
      unfold KnowledgeBase.ingestAnnotations
      have hfirst := hP.ingestAnnotation a
      exact preserves_bind hfirst fun first => preserves_bind ih fun more => preserves_pure _

theorem ingest (hP : Teachable P) (texts : List AnnotatedText) : Preserves P (ingest texts) := by
  have hall : Preserves P (ingestAll texts) := by
    induction texts with
    | nil => exact preserves_pure _
    | cons t rest ih =>
        unfold ingestAll
        refine preserves_bind (hP.ingestAnnotations t.annotations) fun first => ?_
        exact preserves_bind ih fun more => preserves_pure _
  unfold KnowledgeBase.ingest ingest.observing
  refine preserves_bind (preserves_tryCatch ?_ fun e => preserves_pure _) fun result => ?_
  · exact preserves_bind hall fun report => preserves_pure _
  · exact preserves_bind hP.reset fun _ => preserves_accept result

end Teachable

theorem teachable_sound : Teachable Sound where
  replace h hc _ := ⟨h.ontology, h.housed.replace (Ontology.hasConcept_of_get? hc)⟩
  mint := sustains_mint
  rule relation rule hrule := sustains_update fun o ho => ho.addRule relation fun c hc => by
    rw [hrule] at hc
    exact absurd hc List.not_mem_nil
  reset := sustains_reset

theorem sustains_ingestAnnotation (a : Annotation) : Sustains <| ingestAnnotation a :=
  teachable_sound.ingestAnnotation a

theorem sustains_ingestAnnotations (annotations : List Annotation) :
    Sustains (ingestAnnotations annotations) :=
  teachable_sound.ingestAnnotations annotations

/-! ## Properties and deductions -/

theorem sustains_modifyProperty (key : InstanceKey) (property : String)
    (f : Properties → Properties) : Sustains (modifyProperty key property f) := by
  unfold modifyProperty
  refine preserves_bind sustains_reset fun _ => preserves_get_bind fun kb _ => ?_
  split
  · exact preserves_throw _
  · refine preserves_bind (preserves_modify fun _ h => ⟨h.1, h.2.modify key _⟩) fun _ => ?_
    exact preserves_pure _

theorem sustains_deduce (d : World → Deduction α) : Sustains (deduce d) := by
  intro kb h
  unfold deduce
  rw [exec_bind_ok (exec_get kb)]
  exact preserves_accept (P := Sound) _ _ ⟨h.1, h.2⟩

/-! ## Runs -/

/-- The knowledge bases that steps lead to. -/
inductive Reachable : KnowledgeBase → Prop where
  | empty (supply : Supply) : Reachable { supply }
  | ofOntology {o : Ontology} (ho : o.Reachable) {supply : Supply} {kb : KnowledgeBase}
      (hkb : ofOntology o supply = .ok kb) : Reachable kb
  | update {kb : KnowledgeBase} (h : Reachable kb) {α : Type} (change : Ontology.Change α)
      (hchange : ∀ o : Ontology, o.Reachable → (exec change o).2.Reachable) :
      Reachable (exec (update change) kb).2
  | rebuild {kb : KnowledgeBase} (h : Reachable kb) : Reachable (exec rebuild kb).2
  | setFactory {kb : KnowledgeBase} (h : Reachable kb) (concept : String) (factory : Factory) :
      Reachable (exec (setFactory concept factory) kb).2
  | addInstance {kb : KnowledgeBase} (h : Reachable kb) (i : Instance) :
      Reachable (exec (addInstance i) kb).2
  | createInstance {kb : KnowledgeBase} (h : Reachable kb) (concept : String)
      (name? : Option String) (properties : Properties) :
      Reachable (exec (createInstance concept name? properties) kb).2
  | modifyProperty {kb : KnowledgeBase} (h : Reachable kb) (key : InstanceKey) (property : String)
      (f : Properties → Properties) : Reachable (exec (modifyProperty key property f) kb).2
  | changeInstance {kb : KnowledgeBase} (h : Reachable kb) (key : InstanceKey)
      (f : Instance → Instance) :
      Reachable ({ kb with registry := kb.registry.modify key f } : KnowledgeBase).reset
  | mint {kb : KnowledgeBase} (h : Reachable kb) : Reachable (exec mint kb).2
  | ingest {kb : KnowledgeBase} (h : Reachable kb) (texts : List AnnotatedText) :
      Reachable (exec (ingest texts) kb).2
  | deduce {kb : KnowledgeBase} (h : Reachable kb) {α : Type} (d : World → Deduction α) :
      Reachable (exec (deduce d) kb).2
  | reset {kb : KnowledgeBase} (h : Reachable kb) : Reachable kb.reset

theorem sound_ofOntology {o : Ontology} (ho : o.Reachable) {supply : Supply}
    (hkb : ofOntology o supply = .ok kb) : kb.Sound := by
  obtain ⟨hhoused, hsame⟩ := World.syncStatics_keeps { ontology := o }
  unfold ofOntology at hkb
  generalize World.syncStatics { ontology := o } = run at hhoused hsame hkb
  obtain ⟨outcome, w⟩ := run
  cases outcome with
  | error e => nomatch hkb
  | ok u =>
      cases hkb
      exact ⟨hsame.symm ▸ ho, hhoused⟩

/-- Every reachable knowledge base is sound. -/
theorem Reachable.sound (h : kb.Reachable) : kb.Sound := by
  induction h with
  | empty supply => exact ⟨.empty, fun concept h => nomatch h⟩
  | ofOntology ho hkb => exact sound_ofOntology ho hkb
  | update _ change hchange ih => exact sustains_update hchange _ ih
  | rebuild _ ih => exact sustains_rebuild _ ih
  | setFactory _ concept factory ih => exact sustains_setFactory concept factory _ ih
  | addInstance _ i ih => exact teachable_sound.addInstance i _ ih
  | createInstance _ concept name? properties ih =>
      exact teachable_sound.createInstance concept name? properties _ ih
  | modifyProperty _ key property f ih => exact sustains_modifyProperty key property f _ ih
  | changeInstance _ key f ih => exact ⟨ih.ontology, ih.housed.modify key f⟩
  | mint _ ih => exact sustains_mint _ ih
  | ingest _ texts ih => exact teachable_sound.ingest texts _ ih
  | deduce _ d ih => exact sustains_deduce d _ ih
  | reset _ ih => exact ⟨ih.ontology, ih.housed⟩

end Credence.KnowledgeBase
