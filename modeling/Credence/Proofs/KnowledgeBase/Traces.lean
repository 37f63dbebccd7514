import Credence.Proofs.KnowledgeBase.Ingestion

/-!
# What a refused annotation leaves behind

Both entities of an annotation are looked at before an instance is made for either, but only for the
categories of their concepts.  Whether a factory takes the name of an entity shows when the instance
is made, and the instance of the domain is made first.  So a refused annotation leaves no trace
exactly if it is refused before that (`RefusedAtOnce`).  Otherwise the new instance of its domain
stays; and where the registry cannot follow, the rule stays too.
-/

namespace Credence.KnowledgeBase

open World (newInstance)

variable {kb kb' : KnowledgeBase} {a : Annotation} {err : Error}

/-- A world with a new instance is not the world before. -/
theorem keep_ne {i : Instance} (h : kb.registry.contains i.key = false) :
    (kb.keep (some i)).toWorld ≠ kb.toWorld := by
  intro hsame
  have hcontains : (kb.keep (some i)).registry.contains i.key = true := by
    show (kb.registry.replace i).contains i.key = true
    simp
  rw [hsame, h] at hcontains
  cases hcontains

theorem conclude_ne {r : Relation} (hr : kb.ontology.relations.get? a.relation = some r)
    (created : Nat) : (kb.conclude a created).2.ontology ≠ kb.ontology := by
  intro hsame
  have hcount := Ontology.ruleCount_withRule hr (kb.ruleOf a kb.supply.next)
  rw [← ontology_conclude kb a created, hsame] at hcount
  omega

/-- What is refused at once changes nothing. -/
theorem RefusedAtOnce.eq (h : RefusedAtOnce kb.toWorld a) :
    (exec ( ingestAnnotation a) kb).2 = kb := by
  cases hskips : kb.ontology.skips a with
  | true => rw [exec_ingestAnnotation_skipped hskips]
  | false =>
  cases hr : kb.ontology.relations.get? a.relation with
  | none => rw [exec_ingestAnnotation_unknown hskips hr]
  | some r =>
  rw [exec_ingestAnnotation_allowed hskips hr]
  cases h with
  | unknown hunknown => cases hr.symm.trans hunknown
  | domainType hdomain => rw [hdomain]
  | targetType htarget =>
      rw [htarget]
      cases entityCategory kb.toWorld a.domain <;> rfl
  | domainName hdomain =>
      rw [hdomain]
      cases entityCategory kb.toWorld a.domain with
      | error e => rfl
      | ok category => cases entityCategory kb.toWorld a.target <;> rfl
  | targetName hdomain htarget =>
      have hnothing : newInstance (kb.keep none).toWorld a.target = _ := htarget
      rw [hdomain]
      dsimp only
      rw [hnothing]
      cases entityCategory kb.toWorld a.domain with
      | error e => rfl
      | ok category => cases entityCategory kb.toWorld a.target <;> rfl

/-- An annotation that fails leaves no trace exactly if it is refused at once. -/
theorem toWorld_eq_iff (h : exec ( ingestAnnotation a) kb = (.error err, kb')) :
    kb'.toWorld = kb.toWorld ↔ RefusedAtOnce kb.toWorld a := by
  constructor
  · intro hsame
    have hended := ended kb a
    rw [h] at hended
    cases hended with
    | refused honce => exact honce
    | halfway hi => exact absurd hsame (keep_ne (World.newInstance_eq_some hi).2.2)
    | @concluded i? k? _ hequipped hrun =>
        have hontology : ((kb.keep i?).keep k?).ontology = kb.ontology :=
          (keep_ontology _ k?).trans (kb.keep_ontology i?)
        obtain ⟨r, hr⟩ := hequipped.relation
        rw [← hontology] at hr
        have hne := conclude_ne hr (i?.toList.length + k?.toList.length)
        rw [hrun, hontology] at hne
        exact absurd (congrArg World.ontology hsame) hne
  · intro honce
    have hsame := honce.eq
    rw [h] at hsame
    exact congrArg toWorld hsame

/-- In a furnished knowledge base nothing but the instance of the domain can stay. -/
theorem trace_of_furnished (h : kb.Sound) (hfurnished : kb.Furnished)
    (hfailed : exec ( ingestAnnotation a) kb = (.error err, kb')) :
    kb'.toWorld = kb.toWorld ∨ ∃ i, newInstance kb.toWorld a.domain = .ok (some i) ∧
      kb'.toWorld = { kb.toWorld with registry := kb.registry.replace i } := by
  have hended := ended kb a
  rw [hfailed] at hended
  cases hended with
  | refused => exact .inl rfl
  | @halfway _ i hi => exact .inr ⟨i, hi, rfl⟩
  | @concluded i? k? _ hequipped hrun =>
      have hhoused := housed_keep (housed_keep h.housed hequipped.domainInstance)
        hequipped.targetInstance
      have hfurnished := furnished_keep (furnished_keep hfurnished i?) k?
      rw [conclude_of_furnished hhoused hfurnished] at hrun
      cases hrun

/-- An annotation of some texts is refused, and all before it have been learnt. -/
structure FirstRefused (kb : KnowledgeBase) (texts : List AnnotatedText) (err : Error)
    (before : List Annotation) (a : Annotation) (kb₁ kb' : KnowledgeBase) : Prop where
  row : before ++ [a] <+: texts.flatMap AnnotatedText.annotations
  learnt : ∃ report, exec (ingestAnnotations before) kb = (.ok report, kb₁)
  refused : ∃ kb₂, exec ( ingestAnnotation a) kb₁ = (.error err, kb₂) ∧ kb' = kb₂.reset

/-- Texts that are refused leave what the annotations before the refused one have left, if that one
is refused at once, and more otherwise: in a furnished knowledge base the instance of its domain. -/
theorem exists_first_refused {texts : List AnnotatedText} (h : kb.Reachable)
    (hfailed : exec (ingest texts) kb = (.error err, kb')) :
    ∃ before a kb₁, FirstRefused kb texts err before a kb₁ kb' ∧
      (kb'.toWorld = kb₁.toWorld ↔ RefusedAtOnce kb₁.toWorld a) ∧
      (kb₁.Furnished → kb'.toWorld = kb₁.toWorld ∨
        ∃ i, newInstance kb₁.toWorld a.domain = .ok (some i) ∧
          kb'.toWorld = { kb₁.toWorld with registry := kb₁.registry.replace i }) := by
  rw [exec_ingest] at hfailed
  cases hrow : exec (ingestAnnotations (texts.flatMap AnnotatedText.annotations)) kb with
  | mk outcome kb₂ =>
  rw [hrow] at hfailed
  cases outcome with
  | ok report => cases hfailed
  | error err' =>
      cases hfailed
      obtain ⟨before, a, after, report, kb₁, hsplit, hbefore, ha⟩ :=
        exists_of_ingestAnnotations_error hrow
      have hfront : before ++ [a] <+: texts.flatMap AnnotatedText.annotations :=
        ⟨after, by rw [hsplit, List.append_assoc, List.singleton_append]⟩
      have hsound : kb₁.Sound := by
        have hsustained := sustains_ingestAnnotations before kb h.sound
        rw [hbefore] at hsustained
        exact hsustained
      -- forgetting deductions leaves the world as it is
      have htrace := toWorld_eq_iff ha
      have hfurnished := fun h => trace_of_furnished hsound h ha
      exact ⟨before, a, kb₁, ⟨hfront, ⟨report, hbefore⟩, kb₂, ha, rfl⟩, htrace, hfurnished⟩

/-- People and the days on which they were seen. -/
def diary : KnowledgeBase :=
  let person : Concept := { name := "Person", category := .dynamic }
  let day : Concept := { name := "Day", category := .dynamic, chosenFactory := some .date }
  let seen : Relation :=
    { name := "seen"
      domains := [{ bases := KeySet.ofList ["Person"] }]
      targets := [{ bases := KeySet.ofList ["Day"] }] }
  let kb := (exec (update (Ontology.addConcept person)) {}).2
  let kb := (exec (update (Ontology.addConcept day)) kb).2
  (exec (update (Ontology.addRelation seen)) kb).2

/-- Ana was seen on a day that is none. -/
def hearsay : AnnotatedText :=
  { annotations := [⟨⟨"Person", "Ana", 1⟩, "seen", ⟨"Day", "someday", 1⟩, .positive, 1⟩] }

theorem exists_first_refused_diary : ∃ err kb' before a kb₁,
    exec (ingest [hearsay]) diary = (.error err, kb') ∧
      FirstRefused diary [hearsay] err before a kb₁ kb' ∧
      (kb'.toWorld = kb₁.toWorld ↔ RefusedAtOnce kb₁.toWorld a) ∧ kb'.toWorld ≠ kb₁.toWorld := by
  have hreachable : diary.Reachable :=
    .update (.update (.update (.empty _) _ fun o ho => ho.addConcept _) _
      fun o ho => ho.addConcept _) _ fun o ho => ho.addRelation (List.forall_mem_nil _)
  have hrun : (exec (ingest [hearsay]) diary).1.isOk = false ∧
      diary.registry.contains ⟨"Person", "Ana"⟩ = false ∧
      (exec (ingest [hearsay]) diary).2.registry.contains ⟨"Person", "Ana"⟩ = true := by
    decide +kernel
  generalize hstep : exec (ingest [hearsay]) diary = run at hrun
  obtain ⟨outcome, kb'⟩ := run
  cases outcome with
  | ok report => cases hrun.1
  | error err =>
      obtain ⟨before, a, kb₁, hfirst, hiff, -⟩ := exists_first_refused hreachable hstep
      refine ⟨err, kb', before, a, kb₁, rfl, hfirst, hiff, fun hsame => ?_⟩
      -- nothing comes before the only annotation
      have hbefore : before = [] := by
        have hlength := hfirst.row.length_le
        rw [List.length_append] at hlength
        exact List.length_eq_zero_iff.mp (Nat.le_zero.mp (Nat.le_of_add_le_add_right hlength))
      obtain ⟨report, hlearnt⟩ := hfirst.learnt
      rw [hbefore] at hlearnt
      cases hlearnt
      have hcontains := hrun.2.2
      rw [hsame] at hcontains
      rw [hrun.2.1] at hcontains
      cases hcontains

end Credence.KnowledgeBase
