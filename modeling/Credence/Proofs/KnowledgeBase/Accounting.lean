import Credence.Proofs.KnowledgeBase.Ingestion

/-!
# What annotations add

In a furnished knowledge base every annotation that is learnt from adds one rule, and the instances
that its entities lack.  What a row of annotations adds is counted by its report (`Learnt`): the
rules by the annotations that are not skipped, the instances by the keys that were free.  All else
stays, and the rules that were there keep their order.

After that all entities of the row are at hand (`AtHand`), so learning from it once more makes no
instance.
-/

namespace Credence

namespace Ontology

variable {o o' : Ontology} {name : String}

/-- The rules of a relation, strongest first. -/
def rulesOf (o : Ontology) (name : String) : List Rule :=
  (o.relations.get? name).elim [] Relation.rules

theorem rulesOf_withRule_of_ne {n : String} (h : n ≠ name) (rule : Rule) :
    (o.withRule name rule).rulesOf n = o.rulesOf n := by
  unfold rulesOf
  rw [get?_relations_withRule, if_neg h]

/-- A new rule finds its place among the rules of its relation. -/
theorem rulesOf_withRule {r : Relation} (hr : o.relations.get? name = some r) (rule : Rule) :
    (o.rulesOf name).Sublist ((o.withRule name rule).rulesOf name) ∧
      ((o.withRule name rule).rulesOf name).Perm (o.refreshRule rule :: o.rulesOf name) := by
  unfold rulesOf
  rw [get?_relations_withRule, if_pos rfl, hr]
  exact ⟨r.sublist_insertRule _, r.perm_insertRule _⟩

/-- Whether nothing is learnt from an annotation is a matter of the scheme. -/
theorem skips_of_scheme (h : o'.scheme = o.scheme) (a : Annotation) : o'.skips a = o.skips a := by
  have hget := congrArg (fun o => (o.relations.get? a.relation).any fun r =>
    !r.between a.domain.classType a.target.classType) h
  simp only [get?_scheme_relations, Option.any_map] at hget
  unfold skips
  congr 1

/-- The annotations of a relation that are learnt from. -/
def told (o : Ontology) (as : List Annotation) (name : String) : List Annotation :=
  as.filter fun a => !o.skips a && a.relation = name

theorem told_of_scheme (h : o'.scheme = o.scheme) (as : List Annotation) (name : String) :
    o'.told as name = o.told as name := by
  unfold told
  simp only [skips_of_scheme h]

end Ontology

namespace World

variable {w w' : World} {a : Annotation} {e : Entity} {rule : Rule}

/-- A rule says what an annotation tells, without conditions and about its two entities only. -/
structure States (w : World) (a : Annotation) (rule : Rule) : Prop where
  domains : rule.domains.bases = KeySet.ofList [.inst (w.entityKey a.domain)]
  targets : rule.targets.bases = KeySet.ofList [.inst (w.entityKey a.target)]
  conditions : rule.conditions = []
  confidence : rule.confidence = clamp a.confidence
  supporting : rule.supporting = true ↔ a.classification = .positive

theorem states_ruleOf (h : w.ontology.skips a = false) (id : RuleId) :
    w.States a (w.ontology.refreshRule (w.ruleOf a id)) where
  domains := rfl
  targets := rfl
  conditions := rfl
  confidence := rfl
  supporting := by
    obtain ⟨htells, -⟩ := Ontology.skips_eq_false_iff.mp h
    show decide (a.classification ≠ .negative) = true ↔ _
    cases hc : a.classification with
    | positive => simp
    | insufficient => exact absurd hc htells
    | negative => simp

theorem States.of_scheme (h : w.States a rule) (hscheme : w.ontology.scheme = w'.ontology.scheme) :
    w'.States a rule where
  domains := by rw [h.domains, entityKey_congr hscheme]
  targets := by rw [h.targets, entityKey_congr hscheme]
  conditions := h.conditions
  confidence := h.confidence
  supporting := h.supporting

/-- An entity lacks no instance if its concept is static or its key is taken. -/
theorem newInstance_eq_none_iff : w.newInstance e = .ok none ↔
    ∀ c, w.concept? e.classType = some c →
      c.category = .static ∨ w.registry.contains ⟨e.classType, e.surfaceForm⟩ = true := by
  unfold newInstance
  cases hc : w.concept? e.classType with
  | none => simp
  | some c =>
      dsimp only
      split
      · rename_i h
        simpa using h
      · rename_i h
        cases c.factory.create e.classType e.surfaceForm c.seed with
        | error err => simpa [Except.map] using h
        | ok i => simpa [Except.map] using h

/-- An entity that lacks nothing lacks nothing later. -/
theorem newInstance_of_scheme (h : w.newInstance e = .ok none)
    (hscheme : w'.ontology.scheme = w.ontology.scheme)
    (hregistry : ∀ key, w.registry.contains key = true → w'.registry.contains key = true) :
    w'.newInstance e = .ok none := by
  rw [newInstance_eq_none_iff] at h ⊢
  intro c' hc'
  obtain ⟨c, memberships, hc, rfl⟩ := Ontology.exists_concept_of_scheme hscheme hc'
  exact (h c hc).imp_right (hregistry _)

end World

namespace KnowledgeBase

open World (newInstance)

variable {kb kb' kb'' : KnowledgeBase} {a : Annotation} {as bs : List Annotation} {e : Entity}
  {report report' : Report}

/-! ## Instances -/

/-- Making an instance changes none that is there. -/
theorem get?_keep {i? : Option Instance} (hi : newInstance kb.toWorld e = .ok i?)
    {key : InstanceKey} {j : Instance} (h : kb.registry.get? key = some j) :
    (kb.keep i?).registry.get? key = some j := by
  cases i? with
  | none => exact h
  | some i =>
      have hfree := (World.newInstance_eq_some hi).2.2
      show (kb.registry.replace i).get? key = some j
      rw [Registry.get?_replace, if_neg, h]
      rintro rfl
      unfold Registry.contains at hfree
      rw [h] at hfree
      cases hfree

theorem size_keep {i? : Option Instance} (hi : newInstance kb.toWorld e = .ok i?) :
    (kb.keep i?).registry.size = kb.registry.size + i?.toList.length := by
  cases i? with
  | none => rfl
  | some i =>
      have hsize := kb.registry.size_replace i
      rw [(World.newInstance_eq_some hi).2.2] at hsize
      exact hsize

/-- After its instance has been made an entity lacks nothing. -/
theorem newInstance_keep {i? : Option Instance} (hi : newInstance kb.toWorld e = .ok i?) :
    newInstance (kb.keep i?).toWorld e = .ok none := by
  cases i? with
  | none => exact hi
  | some i =>
      refine World.newInstance_eq_none_iff.mpr fun c _ => .inr ?_
      show (kb.registry.replace i).contains _ = true
      rw [Registry.contains_replace, (World.newInstance_eq_some hi).1]
      simp

/-! ## One annotation -/

/-- Nothing has to be made for an annotation: it is skipped, or both instances are there. -/
def AtHand (kb : KnowledgeBase) (a : Annotation) : Prop :=
  kb.ontology.skips a = true ∨ Equipped kb a none none

/-- What is left after a row of annotations has been learnt from, beside what was there before. -/
structure Learnt (kb : KnowledgeBase) (as : List Annotation) (report : Report)
    (kb' : KnowledgeBase) : Prop where
  scheme : kb'.ontology.scheme = kb.ontology.scheme
  rules : ∀ name, ∃ added, List.Forall₂ kb.States (kb.ontology.told as name) added ∧
    (kb.ontology.rulesOf name).Sublist (kb'.ontology.rulesOf name) ∧
    (kb'.ontology.rulesOf name).Perm (added ++ kb.ontology.rulesOf name)
  instances : ∀ key i, kb.registry.get? key = some i → kb'.registry.get? key = some i
  atHand : ∀ a ∈ as, kb'.AtHand a
  ruleCount : kb'.ontology.ruleCount = kb.ontology.ruleCount + report.rulesAdded
  size : kb'.registry.size = kb.registry.size + report.instancesCreated
  rulesAdded : report.rulesAdded = as.countP fun a => !kb.ontology.skips a
  skipped : report.skipped = as.countP fun a => kb.ontology.skips a
  documents : report.documents = 0

/-- An annotation tells something that its relation allows, about things that have instances. -/
structure Acceptable (kb : KnowledgeBase) (a : Annotation) : Prop where
  told : kb.ontology.skips a = false
  relation : ∃ r, kb.ontology.relations.get? a.relation = some r
  domain : ∃ category, entityCategory kb.toWorld a.domain = .ok category
  target : ∃ category, entityCategory kb.toWorld a.target = .ok category

/-- What is acceptable is a matter of the scheme. -/
theorem Acceptable.of_scheme (h : kb.Acceptable a)
    (hscheme : kb'.ontology.scheme = kb.ontology.scheme) : kb'.Acceptable a where
  told := (Ontology.skips_of_scheme hscheme a).trans h.told
  relation := by
    obtain ⟨r, hr⟩ := h.relation
    obtain ⟨r', -, hr', -⟩ := Ontology.exists_relation_of_scheme hscheme.symm hr
    exact ⟨r', hr'⟩
  domain := by
    rw [entityCategory_congr hscheme]
    exact h.domain
  target := by
    rw [entityCategory_congr hscheme]
    exact h.target

theorem Equipped.acceptable {i? k? : Option Instance} (h : Equipped kb a i? k?) :
    kb.Acceptable a := ⟨h.told, h.relation, h.domain, h.target⟩

/-- What a rule needs beside instances is a matter of the scheme. -/
theorem Equipped.of_scheme {i? k? i?' k?' : Option Instance} (h : Equipped kb a i? k?)
    (hscheme : kb'.ontology.scheme = kb.ontology.scheme)
    (hi : newInstance kb'.toWorld a.domain = .ok i?')
    (hk : newInstance (kb'.keep i?').toWorld a.target = .ok k?') : Equipped kb' a i?' k?' := by
  obtain ⟨htold, hrelation, hdomain, htarget⟩ := h.acceptable.of_scheme hscheme
  exact ⟨htold, hrelation, hdomain, htarget, hi, hk⟩

/-- What is at hand stays at hand. -/
theorem AtHand.of_scheme (h : kb.AtHand a) (hscheme : kb'.ontology.scheme = kb.ontology.scheme)
    (hregistry : ∀ key, kb.registry.contains key = true → kb'.registry.contains key = true) :
    kb'.AtHand a :=
  h.imp (Ontology.skips_of_scheme hscheme a).trans fun hequipped =>
    hequipped.of_scheme hscheme
      (World.newInstance_of_scheme hequipped.domainInstance hscheme hregistry)
      (World.newInstance_of_scheme hequipped.targetInstance hscheme hregistry)

/-- After its instances have been made an annotation lacks nothing. -/
theorem atHand_keep {i? k? : Option Instance} (h : Equipped kb a i? k?) :
    ((kb.keep i?).keep k?).AtHand a := by
  have hscheme : ((kb.keep i?).keep k?).ontology.scheme = kb.ontology.scheme := by
    rw [keep_ontology, keep_ontology]
  have hdomain : newInstance ((kb.keep i?).keep k?).toWorld a.domain = .ok none :=
    World.newInstance_of_scheme (newInstance_keep h.domainInstance)
      (congrArg Ontology.scheme (keep_ontology _ k?)) fun _ => contains_keep
  have htarget : newInstance ((kb.keep i?).keep k?).toWorld a.target = .ok none :=
    newInstance_keep h.targetInstance
  exact .inr (h.of_scheme hscheme hdomain htarget)

theorem Learnt.contains (h : Learnt kb as report kb') {key : InstanceKey}
    (hthere : kb.registry.contains key = true) : kb'.registry.contains key = true := by
  obtain ⟨i, hi⟩ := Option.isSome_iff_exists.mp hthere
  exact Option.isSome_iff_exists.mpr ⟨i, h.instances key i hi⟩

theorem Learnt.furnished (h : Learnt kb as report kb') (hfurnished : kb.Furnished) :
    kb'.Furnished :=
  World.Furnished.of_scheme hfurnished h.scheme fun _ => h.contains

/-- An annotation that is skipped adds nothing. -/
theorem learnt_skipped (hskips : kb.ontology.skips a = true) :
    Learnt kb [a] { skipped := 1 } kb where
  scheme := rfl
  rules := fun name => ⟨[], by simp [Ontology.told, hskips], List.Sublist.refl _, List.Perm.refl _⟩
  instances := fun _ _ h => h
  atHand := List.forall_mem_singleton.mpr (.inl hskips)
  ruleCount := rfl
  size := rfl
  rulesAdded := by simp [hskips]
  skipped := by simp [hskips]
  documents := rfl

/-- An annotation that is learnt from adds its rule and the instances that its entities lack. -/
theorem learnt_concluded {i? k? : Option Instance} {id : RuleId} (h : Equipped kb a i? k?)
    (hontology : kb'.ontology = kb.ontology.withRule a.relation (kb.ruleOf a id))
    (hregistry : kb'.registry = ((kb.keep i?).keep k?).registry) :
    Learnt kb [a]
      { rulesAdded := 1, instancesCreated := i?.toList.length + k?.toList.length } kb' where
  scheme := by rw [hontology, Ontology.scheme_withRule]
  rules := by
    intro name
    rw [hontology]
    by_cases hname : name = a.relation
    · subst hname
      obtain ⟨r, hr⟩ := h.relation
      obtain ⟨hsublist, hperm⟩ := Ontology.rulesOf_withRule hr (kb.ruleOf a id)
      refine ⟨[kb.ontology.refreshRule (kb.ruleOf a id)], ?_, hsublist, hperm⟩
      have htold : kb.ontology.told [a] a.relation = [a] := by simp [Ontology.told, h.told]
      rw [htold]
      exact .cons (World.states_ruleOf h.told id) .nil
    · have htold : kb.ontology.told [a] name = [] := by simp [Ontology.told, Ne.symm hname]
      rw [htold, Ontology.rulesOf_withRule_of_ne hname]
      exact ⟨[], .nil, List.Sublist.refl _, List.Perm.refl _⟩
  instances := by
    intro key j hj
    rw [hregistry]
    exact get?_keep h.targetInstance (get?_keep h.domainInstance hj)
  atHand := by
    refine List.forall_mem_singleton.mpr ((atHand_keep h).of_scheme ?_ ?_)
    · rw [hontology, Ontology.scheme_withRule, keep_ontology, keep_ontology]
    · rw [hregistry]
      exact fun _ h => h
  ruleCount := by
    obtain ⟨r, hr⟩ := h.relation
    rw [hontology, Ontology.ruleCount_withRule hr]
  size := by rw [hregistry, size_keep h.targetInstance, size_keep h.domainInstance, Nat.add_assoc]
  rulesAdded := by simp [h.told]
  skipped := by simp [h.told]
  documents := rfl

theorem learnt_annotation (h : kb.Sound) (hfurnished : kb.Furnished)
    (hrun : exec ( ingestAnnotation a) kb = (.ok report, kb')) : Learnt kb [a] report kb' := by
  have hended := ended kb a
  rw [hrun] at hended
  cases hended with
  | skipped hskips => exact learnt_skipped hskips
  | @concluded i? k? _ hequipped hconclude =>
      rw [conclude_of_furnished
        (housed_keep (housed_keep h.housed hequipped.domainInstance) hequipped.targetInstance)
        (furnished_keep (furnished_keep hfurnished i?) k?)] at hconclude
      cases hconclude
      have hontology : Ontology.withRule ((kb.keep i?).keep k?).ontology a.relation
          (World.ruleOf ((kb.keep i?).keep k?).toWorld a ((kb.keep i?).keep k?).supply.next) =
            kb.ontology.withRule a.relation (kb.ruleOf a kb.supply.next) := by
        rw [keep_ontology, keep_ontology, ruleOf_keep, ruleOf_keep, supply_keep, supply_keep]
      exact learnt_concluded hequipped hontology rfl

/-! ## Annotations in a row -/

theorem Learnt.nil (kb : KnowledgeBase) : Learnt kb [] {} kb where
  scheme := rfl
  rules := fun _ => ⟨[], .nil, List.Sublist.refl _, List.Perm.refl _⟩
  instances := fun _ _ h => h
  atHand := fun _ h => absurd h List.not_mem_nil
  ruleCount := rfl
  size := rfl
  rulesAdded := rfl
  skipped := rfl
  documents := rfl

theorem Learnt.append (h : Learnt kb as report kb') (h' : Learnt kb' bs report' kb'') :
    Learnt kb (as ++ bs) (report.plus report') kb'' where
  scheme := h'.scheme.trans h.scheme
  rules := by
    intro name
    obtain ⟨added, hstates, hsublist, hperm⟩ := h.rules name
    obtain ⟨added', hstates', hsublist', hperm'⟩ := h'.rules name
    refine ⟨added ++ added', ?_, hsublist.trans hsublist', ?_⟩
    · rw [Ontology.told_of_scheme h.scheme] at hstates'
      rw [Ontology.told, List.filter_append]
      exact List.rel_append hstates (hstates'.imp fun _ _ hstates => hstates.of_scheme h.scheme)
    · refine hperm'.trans ((hperm.append_left added').trans ?_)
      rw [← List.append_assoc]
      exact List.perm_append_comm.append_right _
  instances := fun key i hi => h'.instances key i (h.instances key i hi)
  atHand := by
    refine List.forall_mem_append.mpr ⟨fun a ha => ?_, h'.atHand⟩
    exact (h.atHand a ha).of_scheme h'.scheme fun _ => h'.contains
  ruleCount := by
    rw [h'.ruleCount, h.ruleCount, Nat.add_assoc]
    rfl
  size := by
    rw [h'.size, h.size, Nat.add_assoc]
    rfl
  rulesAdded := by
    rw [List.countP_append, ← h.rulesAdded]
    simp only [Report.plus, h'.rulesAdded, Ontology.skips_of_scheme h.scheme]
  skipped := by
    rw [List.countP_append, ← h.skipped]
    simp only [Report.plus, h'.skipped, Ontology.skips_of_scheme h.scheme]
  documents := by simp only [Report.plus, h.documents, h'.documents]

/-- The number of texts is all that the report of their annotations lacks. -/
theorem Learnt.plus_documents (h : Learnt kb as report kb') (n : Nat) :
    Report.plus { documents := n } report = { report with documents := n } := by
  simp [Report.plus, h.documents]

theorem learnt_annotations (h : kb.Sound) (hfurnished : kb.Furnished)
    (hrun : exec (ingestAnnotations as) kb = (.ok report, kb')) : Learnt kb as report kb' := by
  induction as generalizing kb report with
  | nil =>
      cases hrun
      exact .nil _
  | cons a rest ih =>
      obtain ⟨first, kb₁, more, hfirst, hrest, rfl⟩ := exists_of_ingestAnnotations_cons_ok hrun
      have hlearnt := learnt_annotation h hfurnished hfirst
      have hsound := Sustains.sound ( sustains_ingestAnnotation a) h hfirst
      exact hlearnt.append (ih hsound (hlearnt.furnished hfurnished) hrest)

/-- An annotation that is at hand goes through and makes nothing. -/
theorem exists_ingestAnnotation (h : kb.Housed) (hfurnished : kb.Furnished) (hhand : kb.AtHand a) :
    ∃ report kb', exec ( ingestAnnotation a) kb = (.ok report, kb') ∧
      report.instancesCreated = 0 := by
  rcases hhand with hskips | hequipped
  · exact ⟨_, _, exec_ingestAnnotation_skipped hskips, rfl⟩
  · have hrun := exec_ingestAnnotation_equipped hequipped
    exact ⟨_, _, hrun.trans (conclude_of_furnished h hfurnished a 0), rfl⟩

theorem exists_ingestAnnotations (h : kb.Sound) (hfurnished : kb.Furnished)
    (hhand : ∀ a ∈ as, kb.AtHand a) :
    ∃ report kb', exec (ingestAnnotations as) kb = (.ok report, kb') ∧
      report.instancesCreated = 0 := by
  induction as generalizing kb with
  | nil => exact ⟨{}, kb, rfl, rfl⟩
  | cons a rest ih =>
      obtain ⟨hfirst, hrest⟩ := List.forall_mem_cons.mp hhand
      obtain ⟨first, kb₁, hrun, hnone⟩ := exists_ingestAnnotation h.housed hfurnished hfirst
      have hlearnt := learnt_annotation h hfurnished hrun
      have hsound := Sustains.sound ( sustains_ingestAnnotation a) h hrun
      obtain ⟨more, kb₂, hmore, hnone'⟩ := ih hsound (hlearnt.furnished hfurnished)
        fun b hb => (hrest b hb).of_scheme hlearnt.scheme fun _ => hlearnt.contains
      refine ⟨first.plus more, kb₂, ?_, ?_⟩
      · rw [exec_ingestAnnotations_cons, hrun]
        dsimp only
        rw [hmore]
        rfl
      · show first.instancesCreated + more.instancesCreated = 0
        rw [hnone, hnone']

/-- What texts add to a furnished knowledge base is what the report says: each annotation is skipped
or adds one rule, which states it; instances are counted as they are made.  All else stays, and the
texts can be learnt from again without a new instance. -/
theorem ingest_accounted {texts : List AnnotatedText} (h : kb.Reachable) (hfurnished : kb.Furnished)
    (hrun : exec (ingest texts) kb = (.ok report, kb')) :
    report.documents = texts.length ∧
      report.rulesAdded + report.skipped = (texts.flatMap AnnotatedText.annotations).length ∧
      kb'.ontology.ruleCount = kb.ontology.ruleCount + report.rulesAdded ∧
      kb'.registry.size = kb.registry.size + report.instancesCreated ∧
      kb'.ontology.scheme = kb.ontology.scheme ∧
      (∀ key i, kb.registry.get? key = some i → kb'.registry.get? key = some i) ∧
      (∀ name, ∃ added,
        List.Forall₂ kb.States
          (kb.ontology.told (texts.flatMap AnnotatedText.annotations) name) added ∧
        (kb.ontology.rulesOf name).Sublist (kb'.ontology.rulesOf name) ∧
        (kb'.ontology.rulesOf name).Perm (added ++ kb.ontology.rulesOf name)) ∧
      ∃ again kb'', exec (ingest texts) kb' = (.ok again, kb'') ∧
        again.rulesAdded = report.rulesAdded ∧ again.instancesCreated = 0 := by
  rw [exec_ingest] at hrun
  cases hrow : exec (ingestAnnotations (texts.flatMap AnnotatedText.annotations)) kb with
  | mk outcome kb₁ =>
  rw [hrow] at hrun
  cases outcome with
  | error err => cases hrun
  | ok total =>
  cases hrun
  have hlearnt := learnt_annotations h.sound hfurnished hrow
  have hsound : kb₁.reset.Sound := by
    have hsustained :=
      sustains_ingestAnnotations (texts.flatMap AnnotatedText.annotations) kb h.sound
    rw [hrow] at hsustained
    exact ⟨hsustained.ontology, hsustained.housed⟩
  have hfurnished' : kb₁.reset.Furnished := hlearnt.furnished hfurnished
  have hhand : ∀ a ∈ texts.flatMap AnnotatedText.annotations, kb₁.reset.AtHand a :=
    fun a ha => (hlearnt.atHand a ha).of_scheme rfl fun _ h => h
  obtain ⟨again, kb₂, hagain, hnone⟩ := exists_ingestAnnotations hsound hfurnished' hhand
  have hlearnt' := learnt_annotations hsound hfurnished' hagain
  rw [hlearnt.plus_documents]
  refine ⟨rfl, ?_, hlearnt.ruleCount, hlearnt.size, hlearnt.scheme,
    hlearnt.instances, hlearnt.rules, { again with documents := texts.length }, kb₂.reset, ?_, ?_,
    hnone⟩
  · show total.rulesAdded + total.skipped = _
    rw [hlearnt.rulesAdded, hlearnt.skipped, Nat.add_comm,
      List.length_eq_countP_add_countP fun a => kb.ontology.skips a]
    simp only [Bool.not_eq_true, Bool.decide_eq_false]
  · rw [exec_ingest, hagain, ← hlearnt'.plus_documents]
    rfl
  · -- the same annotations are skipped again
    have hskips (a : Annotation) : kb₁.reset.ontology.skips a = kb.ontology.skips a :=
      Ontology.skips_of_scheme hlearnt.scheme a
    show again.rulesAdded = total.rulesAdded
    rw [hlearnt'.rulesAdded, hlearnt.rulesAdded]
    simp only [hskips]

/-- People who know each other, and one of them in person. -/
def acquaintances : KnowledgeBase :=
  let person : Concept := { name := "Person", category := .dynamic }
  let zoe : Concept := { name := "Zoe", category := .static, parents := KeySet.ofList ["Person"] }
  let knows : Relation :=
    { name := "knows"
      domains := [{ bases := KeySet.ofList ["Person"] }]
      targets := [{ bases := KeySet.ofList ["Person"] }] }
  let kb := (exec (update (Ontology.addConcept person)) {}).2
  let kb := (exec (update (Ontology.addConcept zoe)) kb).2
  (exec (update (Ontology.addRelation knows)) kb).2

/-- Ana knows Zoe and not herself, and it is not told whom else. -/
def gossip : AnnotatedText :=
  let ana : Entity := ⟨"Person", "Ana", 1⟩
  { annotations := [⟨ana, "knows", ⟨"Zoe", "she", 1⟩, .positive, 0.5⟩,
      ⟨ana, "knows", ana, .negative, 0.75⟩,
      ⟨ana, "knows", ⟨"Person", "Bea", 1⟩, .insufficient, 1⟩] }

/-- Ana is met three times, and made once. -/
theorem ingest_accounted_gossip : acquaintances.Furnished ∧ ∃ kb' again kb'',
    exec (ingest [gossip]) acquaintances =
      (.ok { documents := 1, rulesAdded := 2, skipped := 1, instancesCreated := 1 }, kb') ∧
    kb'.registry.size = acquaintances.registry.size + 1 ∧
    exec (ingest [gossip]) kb' = (.ok again, kb'') ∧ again.rulesAdded = 2 ∧
      again.instancesCreated = 0 := by
  have hreachable : acquaintances.Reachable :=
    .update (.update (.update (.empty _) _ fun o ho => ho.addConcept _) _
      fun o ho => ho.addConcept _) _ fun o ho => ho.addRelation (List.forall_mem_nil _)
  have hrun : acquaintances.Furnished ∧ (exec (ingest [gossip]) acquaintances).1.toOption =
      some { documents := 1, rulesAdded := 2, skipped := 1, instancesCreated := 1 } := by
    decide +kernel
  refine ⟨hrun.1, ?_⟩
  generalize hstep : exec (ingest [gossip]) acquaintances = run at hrun
  obtain ⟨outcome, kb'⟩ := run
  cases outcome with
  | error err => cases hrun.2
  | ok report =>
      obtain rfl := Option.some.inj hrun.2
      obtain ⟨-, -, -, hsize, -, -, -, again, kb'', hagain, hrules, hnone⟩ :=
        ingest_accounted hreachable hrun.1 hstep
      exact ⟨kb', again, kb'', rfl, hsize, hagain, hrules, hnone⟩

end KnowledgeBase

end Credence
