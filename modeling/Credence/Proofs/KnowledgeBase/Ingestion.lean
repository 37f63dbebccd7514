import Credence.Proofs.KnowledgeBase.Reachable
import Credence.Proofs.Ontology.NewRule
import Credence.Proofs.World.Registry

/-!
# What an annotation does

An annotation is skipped if it does not tell, or if its relation does not allow it.  Of any other
one both entities are looked up, the instances that they lack are made (`newInstance`), and a rule
between their instances is added (`ruleOf`).  Once both instances are there, the ontology cannot
refuse the rule: the relation allows the annotation, so it covers both concepts.

The file goes through these stages in the order in which they happen, and then puts annotations and
texts in a row.
-/

namespace Credence

/-- Whether nothing is learnt from an annotation: it does not tell, or its relation does not allow
it. -/
def Ontology.skips (o : Ontology) (a : Annotation) : Bool :=
  a.classification = .insufficient ||
    (o.relations.get? a.relation).any fun r => !r.between a.domain.classType a.target.classType

theorem Ontology.skips_eq_false_iff {o : Ontology} {a : Annotation} :
    o.skips a = false ↔ a.classification ≠ .insufficient ∧
      ∀ r, o.relations.get? a.relation = some r →
        r.between a.domain.classType a.target.classType = true := by
  unfold skips
  cases o.relations.get? a.relation <;> simp

namespace World

variable {w : World} {e : Entity} {category : Category}

/-- The key of the instance that an entity is. -/
def entityKey (w : World) (e : Entity) : InstanceKey :=
  if (w.concept? e.classType).any fun c => c.category = .static then .singleton e.classType
  else ⟨e.classType, e.surfaceForm⟩

theorem entityKey_congr {w' : World} (h : w'.ontology.scheme = w.ontology.scheme) :
    w'.entityKey e = w.entityKey e := by
  have hstatic : (w'.concept? e.classType).any (fun c => c.category = .static) =
      (w.concept? e.classType).any (fun c => c.category = .static) := by
    have hcategory := congrArg (Option.any (· = Category.static))
      (Ontology.category_of_scheme h e.classType)
    rw [Option.any_map, Option.any_map] at hcategory
    exact hcategory
  unfold entityKey
  rw [hstatic]

theorem entityKey_concept (w : World) (e : Entity) : (w.entityKey e).concept = e.classType := by
  unfold entityKey
  split <;> rfl

/-- The instance that has to be made for an entity: none for a static concept, and none for an
instance that is there. -/
def newInstance (w : World) (e : Entity) : Except Error (Option Instance) :=
  match w.concept? e.classType with
  | none => .ok none
  | some c =>
    if c.category = .static ∨ w.registry.contains ⟨e.classType, e.surfaceForm⟩ = true then .ok none
    else (c.factory.create e.classType e.surfaceForm c.seed).map some

/-- A new instance is one of an existing concept, and its key is free. -/
theorem newInstance_eq_some {i : Instance} (h : w.newInstance e = .ok (some i)) :
    i.key = ⟨e.classType, e.surfaceForm⟩ ∧ w.ontology.hasConcept i.key.concept = true ∧
      w.registry.contains i.key = false := by
  unfold newInstance at h
  cases hc : w.concept? e.classType with
  | none =>
      rw [hc] at h
      cases h
  | some c =>
      rw [hc] at h
      dsimp only at h
      split at h
      · cases h
      · rename_i hnew
        cases hi : c.factory.create e.classType e.surfaceForm c.seed with
        | error err =>
            rw [hi] at h
            cases h
        | ok j =>
            rw [hi] at h
            cases h
            have hkey := Factory.key_of_create hi
            rw [hkey]
            exact ⟨rfl, Ontology.hasConcept_of_get? hc,
              Bool.eq_false_iff.mpr fun hthere => hnew (.inr hthere)⟩

/-- The rule that an annotation becomes. -/
def ruleOf (w : World) (a : Annotation) (id : RuleId) : Rule :=
  Rule.simple id a.confidence [.inst (w.entityKey a.domain)] [.inst (w.entityKey a.target)]
    (a.classification ≠ .negative)

/-- The rule of an annotation is a matter of the scheme. -/
theorem ruleOf_congr {w' : World} (h : w'.ontology.scheme = w.ontology.scheme) (a : Annotation)
    (id : RuleId) : w'.ruleOf a id = w.ruleOf a id := by
  unfold ruleOf
  rw [entityKey_congr h, entityKey_congr h]

/-! ### Worlds that grow -/

variable {w' : World}

theorem Housed.of_scheme (h : w.Housed) (hscheme : w'.ontology.scheme = w.ontology.scheme)
    (hregistry : w'.registry = w.registry) : w'.Housed := by
  intro concept hcontains
  rw [hregistry] at hcontains
  rw [Ontology.hasConcept_of_scheme hscheme]
  exact h concept hcontains

/-- Static concepts keep their instances while the scheme stays and no instance goes. -/
theorem Furnished.of_scheme (h : w.Furnished) (hscheme : w'.ontology.scheme = w.ontology.scheme)
    (hregistry : ∀ key, w.registry.contains key = true → w'.registry.contains key = true) :
    w'.Furnished := by
  intro c' hc' hstatic
  obtain ⟨n, hn⟩ := Table.mem_values_iff.mp hc'
  obtain ⟨c, memberships, hc, rfl⟩ := Ontology.exists_concept_of_scheme hscheme hn
  exact hregistry _ (h c (Table.mem_values_iff.mpr ⟨n, hc⟩) hstatic)

end World

namespace KnowledgeBase

open World (newInstance)

variable {kb kb' : KnowledgeBase} {a : Annotation} {e : Entity} {category : Category}

theorem entityCategory_eq_ok {w : World} (h : entityCategory w e = .ok category) :
    ∃ c, w.concept? e.classType = some c ∧ c.category = category ∧ category ≠ .abstract := by
  unfold entityCategory at h
  cases hc : w.concept? e.classType with
  | none =>
      rw [hc] at h
      cases h
  | some c =>
      rw [hc] at h
      dsimp only at h
      split at h
      · cases h
      · rename_i habstract
        cases h
        exact ⟨c, rfl, rfl, habstract⟩

theorem entityCategory_congr {w w' : World} (h : w'.ontology.scheme = w.ontology.scheme) :
    entityCategory w' e = entityCategory w e := by
  have hcategory := Ontology.category_of_scheme h e.classType
  unfold entityCategory World.concept?
  cases hc : w.ontology.concepts.get? e.classType with
  | none =>
      rw [hc, Option.map_none, Option.map_eq_none_iff] at hcategory
      rw [hcategory]
  | some c =>
      rw [hc, Option.map_some] at hcategory
      obtain ⟨c', hc', hsame⟩ := Option.map_eq_some_iff.mp hcategory
      rw [hc']
      dsimp only
      rw [hsame]

/-- A knowledge base with one more instance, if there is one. -/
def keep (kb : KnowledgeBase) : Option Instance → KnowledgeBase
  | none => kb
  | some i => ({ kb with registry := kb.registry.replace i } : KnowledgeBase).reset

@[simp] theorem keep_ontology (kb : KnowledgeBase) (i? : Option Instance) :
    (kb.keep i?).ontology = kb.ontology := by
  cases i? <;> rfl

@[simp] theorem supply_keep (kb : KnowledgeBase) (i? : Option Instance) :
    (kb.keep i?).supply = kb.supply := by
  cases i? <;> rfl

@[simp] theorem ruleOf_keep (kb : KnowledgeBase) (i? : Option Instance) (a : Annotation)
    (id : RuleId) : (kb.keep i?).toWorld.ruleOf a id = kb.ruleOf a id :=
  World.ruleOf_congr (congrArg Ontology.scheme (kb.keep_ontology i?)) a id

/-- Keeping an instance drops none. -/
theorem contains_keep {i? : Option Instance} {key : InstanceKey}
    (h : kb.registry.contains key = true) : (kb.keep i?).registry.contains key = true := by
  cases i? with
  | none => exact h
  | some i =>
      show (kb.registry.replace i).contains key = true
      rw [Registry.contains_replace, h, Bool.or_true]

theorem furnished_keep (h : kb.Furnished) (i? : Option Instance) : (kb.keep i?).Furnished :=
  h.of_scheme (congrArg Ontology.scheme (kb.keep_ontology i?)) fun _ => contains_keep

theorem housed_keep (h : kb.Housed) {i? : Option Instance}
    (hi : newInstance kb.toWorld e = .ok i?) : (kb.keep i?).Housed := by
  cases i? with
  | none => exact h
  | some i => exact h.replace (World.newInstance_eq_some hi).2.1

theorem exec_createInstance {c : Concept} (hc : kb.concept? e.classType = some c)
    (hdynamic : c.category = .dynamic)
    (hmissing : kb.registry.contains ⟨e.classType, e.surfaceForm⟩ = false) :
    exec (createInstance e.classType (some e.surfaceForm) ∅) kb =
      match c.factory.create e.classType e.surfaceForm c.seed with
      | .error err => (.error err, kb)
      | .ok i => (.ok i.key, kb.keep (some i)) := by
  have hcheck : checkInstantiable kb.toWorld e.classType ∅ = .ok c := by
    unfold checkInstantiable
    rw [hc]
    dsimp only
    rw [hdynamic]
    rfl
  unfold createInstance
  rw [exec_bind_ok (exec_get kb), hcheck, exec_bind_ok (exec_accept_ok c kb),
    exec_bind_ok (exec_pure e.surfaceForm kb)]
  change exec (accept (c.factory.create e.classType e.surfaceForm c.seed) >>= _) kb = _
  cases hi : c.factory.create e.classType e.surfaceForm c.seed with
  | error err => rfl
  | ok i =>
      rw [exec_bind_ok (exec_accept_ok i kb)]
      have hregister : exec (register i) kb = (.ok (), kb.keep (some i)) := by
        rw [exec_register, Factory.key_of_create hi, hmissing]
        rfl
      rw [exec_bind_ok hregister]
      rfl

/-- An entity is looked for before its instance is made. -/
theorem exec_entityInstance (h : entityCategory kb.toWorld e = .ok category) :
    exec (entityInstance e category) kb =
      match newInstance kb.toWorld e with
      | .error err => (.error err, kb)
      | .ok i? => (.ok (kb.entityKey e, i?.toList.length), kb.keep i?) := by
  obtain ⟨c, hc, rfl, habstract⟩ := entityCategory_eq_ok h
  have hkey : kb.entityKey e = if c.category = .static then .singleton e.classType
      else ⟨e.classType, e.surfaceForm⟩ := by
    simp [World.entityKey, hc]
  unfold entityInstance newInstance
  rw [hc, hkey]
  dsimp only
  by_cases hstatic : c.category = .static
  · rw [if_pos hstatic, if_pos (.inl hstatic), if_pos hstatic]
    rfl
  rw [if_neg hstatic, exec_bind_ok (exec_get kb)]
  by_cases hthere : kb.registry.contains ⟨e.classType, e.surfaceForm⟩ = true
  · rw [if_pos hthere, if_pos (.inr hthere), if_neg hstatic]
    rfl
  · have hdynamic : c.category = .dynamic := by
      cases hcategory : c.category with
      | abstract => exact absurd hcategory habstract
      | static => exact absurd hcategory hstatic
      | dynamic => rfl
    have hmissing := Bool.eq_false_iff.mpr hthere
    rw [if_neg hthere, if_neg (not_or.mpr ⟨hstatic, hthere⟩), if_neg hstatic, exec_bind,
      exec_createInstance hc hdynamic hmissing]
    cases c.factory.create e.classType e.surfaceForm c.seed <;> rfl

/-! ## One annotation -/

theorem exec_ingestAnnotation_skipped (h : kb.ontology.skips a = true) :
    exec ( ingestAnnotation a) kb = (.ok { skipped := 1 }, kb) := by
  unfold ingestAnnotation
  by_cases htells : a.classification = .insufficient
  · rw [if_pos htells]
    rfl
  rw [if_neg htells, exec_bind_ok (exec_get kb)]
  unfold Ontology.skips at h
  rw [decide_eq_false htells, Bool.false_or] at h
  cases hr : kb.ontology.relations.get? a.relation with
  | none =>
      rw [hr] at h
      cases h
  | some r =>
      rw [hr, Option.any_some] at h
      dsimp only
      rw [if_pos h]
      rfl

/-- An annotation whose relation does not exist is refused. -/
theorem exec_ingestAnnotation_unknown (hskips : kb.ontology.skips a = false)
    (hr : kb.ontology.relations.get? a.relation = none) :
    exec ( ingestAnnotation a) kb = (.error (.missing (.relation a.relation)), kb) := by
  obtain ⟨htells, -⟩ := Ontology.skips_eq_false_iff.mp hskips
  unfold ingestAnnotation
  rw [if_neg htells, exec_bind_ok (exec_get kb), hr]
  rfl

/-- The end of an annotation, when both instances are there: its rule is added, and the registry
follows. -/
def conclude (kb : KnowledgeBase) (a : Annotation) (created : Nat) :
    Except Error Report × KnowledgeBase :=
  let ontology := kb.ontology.withRule a.relation (kb.ruleOf a kb.supply.next)
  let synced := World.syncStatics { kb.toWorld with ontology }
  (synced.1.map fun _ => { rulesAdded := 1, instancesCreated := created },
    ({ kb with toWorld := synced.2, supply := kb.supply.advance } : KnowledgeBase).reset)

/-- The rule of an annotation is in the ontology also if the registry cannot follow. -/
theorem ontology_conclude (kb : KnowledgeBase) (a : Annotation) (created : Nat) :
    (kb.conclude a created).2.ontology =
      kb.ontology.withRule a.relation (kb.ruleOf a kb.supply.next) :=
  (World.syncStatics_keeps _).2

/-- The registry can follow where every static concept has its instance. -/
theorem conclude_of_furnished (hhoused : kb.Housed) (hfurnished : kb.Furnished) (a : Annotation)
    (created : Nat) :
    kb.conclude a created =
      (.ok { rulesAdded := 1, instancesCreated := created },
        ({ kb with
          ontology := kb.ontology.withRule a.relation (kb.ruleOf a kb.supply.next)
          supply := kb.supply.advance } : KnowledgeBase).reset) := by
  have hscheme := Ontology.scheme_withRule kb.ontology a.relation (kb.ruleOf a kb.supply.next)
  unfold conclude
  generalize kb.ontology.withRule a.relation (kb.ruleOf a kb.supply.next) = o at hscheme
  have hhoused' : World.Housed { kb.toWorld with ontology := o } := hhoused.of_scheme hscheme rfl
  have hfurnished' : World.Furnished { kb.toWorld with ontology := o } :=
    hfurnished.of_scheme hscheme fun _ h => h
  dsimp only
  rw [hhoused'.syncStatics_eq hfurnished']
  rfl

/-- The ontology takes the rule of an annotation that it allows. -/
theorem exec_conclude {r : Relation} (hskips : kb.ontology.skips a = false)
    (hr : kb.ontology.relations.get? a.relation = some r)
    (hdomain : kb.ontology.hasConcept a.domain.classType = true)
    (htarget : kb.ontology.hasConcept a.target.classType = true) (created : Nat) :
    exec (do
      let rule := Rule.simple (← mint) a.confidence [.inst (kb.entityKey a.domain)]
        [.inst (kb.entityKey a.target)] (a.classification ≠ .negative)
      update (Ontology.addRule a.relation rule)
      return { rulesAdded := 1, instancesCreated := created } : Step Report) kb =
      kb.conclude a created := by
  have hbetween := (Ontology.skips_eq_false_iff.mp hskips).2 r hr
  rw [← kb.entityKey_concept a.domain, ← kb.entityKey_concept a.target] at hbetween
  rw [← kb.entityKey_concept a.domain] at hdomain
  rw [← kb.entityKey_concept a.target] at htarget
  have hcheck : kb.ontology.checkRule r (kb.ruleOf a kb.supply.next) = .ok () :=
    Ontology.checkRule_simple hdomain htarget hbetween
  rw [exec_bind_ok (exec_mint kb)]
  change exec (update (Ontology.addRule a.relation (kb.ruleOf a kb.supply.next)) >>= _)
    { kb with supply := kb.supply.advance } = _
  unfold conclude
  dsimp only
  generalize hsync : World.syncStatics _ = synced
  obtain ⟨synced, w⟩ := synced
  have hupdate : exec (update (Ontology.addRule a.relation (kb.ruleOf a kb.supply.next)))
      { kb with supply := kb.supply.advance } = _ :=
    exec_update (Ontology.exec_addRule hr hcheck) hsync
  rw [exec_bind, hupdate]
  cases synced with
  | error e => rfl
  | ok u => rfl

/-- An annotation that its relation allows: both entities are looked up, the instances that they
lack are made, and the rule is added. -/
theorem exec_ingestAnnotation_allowed (hskips : kb.ontology.skips a = false) {r : Relation}
    (hr : kb.ontology.relations.get? a.relation = some r) :
    exec ( ingestAnnotation a) kb =
      match entityCategory kb.toWorld a.domain, entityCategory kb.toWorld a.target with
      | .error e, _ => (.error e, kb)
      | .ok _, .error e => (.error e, kb)
      | .ok _, .ok _ =>
        match newInstance kb.toWorld a.domain with
        | .error e => (.error e, kb)
        | .ok i? =>
          match newInstance (kb.keep i?).toWorld a.target with
          | .error e => (.error e, kb.keep i?)
          | .ok k? => ((kb.keep i?).keep k?).conclude a (i?.toList.length + k?.toList.length) := by
  obtain ⟨htells, hbetween⟩ := Ontology.skips_eq_false_iff.mp hskips
  unfold ingestAnnotation
  rw [if_neg htells, exec_bind_ok (exec_get kb), hr]
  dsimp only
  rw [if_neg (by rw [hbetween r hr]; decide), exec_bind_ok (exec_get kb)]
  cases hdomain : entityCategory kb.toWorld a.domain with
  | error e => rfl
  | ok category =>
  rw [exec_bind_ok (exec_accept_ok category kb), exec_bind_ok (exec_get kb)]
  cases htarget : entityCategory kb.toWorld a.target with
  | error e => rfl
  | ok category' =>
  rw [exec_bind_ok (exec_accept_ok category' kb), exec_bind, exec_entityInstance hdomain]
  dsimp only
  cases newInstance kb.toWorld a.domain with
  | error e => rfl
  | ok i? =>
  have htarget' : entityCategory (kb.keep i?).toWorld a.target = .ok category' :=
    (entityCategory_congr (congrArg Ontology.scheme (kb.keep_ontology i?))).trans htarget
  dsimp only
  rw [exec_bind, exec_entityInstance htarget']
  cases newInstance (kb.keep i?).toWorld a.target with
  | error e => rfl
  | ok k? =>
  have hsame : ((kb.keep i?).keep k?).ontology = kb.ontology :=
    (keep_ontology _ k?).trans (kb.keep_ontology i?)
  obtain ⟨c, hc, -⟩ := entityCategory_eq_ok hdomain
  obtain ⟨d, hd, -⟩ := entityCategory_eq_ok htarget
  dsimp only
  rw [← World.entityKey_congr (congrArg Ontology.scheme hsame),
    ← World.entityKey_congr (congrArg Ontology.scheme (keep_ontology (kb.keep i?) k?))]
  rw [← hsame] at hskips hr
  refine exec_conclude hskips hr ?_ ?_ _
  · rw [hsame]
    exact Ontology.hasConcept_of_get? hc
  · rw [hsame]
    exact Ontology.hasConcept_of_get? hd

/-- An annotation is refused before anything is made for it. -/
inductive RefusedAtOnce (w : World) (a : Annotation) : Prop where
  | unknown (h : w.ontology.relations.get? a.relation = none)
  | domainType {err : Error} (h : entityCategory w a.domain = .error err)
  | targetType {err : Error} (h : entityCategory w a.target = .error err)
  | domainName {err : Error} (h : newInstance w a.domain = .error err)
  /-- The instance of the domain is there already. -/
  | targetName {err : Error} (hdomain : newInstance w a.domain = .ok none)
      (h : newInstance w a.target = .error err)

/-- An annotation has all that its rule needs: its relation, both concepts, and what instances its
entities lack. -/
structure Equipped (kb : KnowledgeBase) (a : Annotation) (i? k? : Option Instance) : Prop where
  told : kb.ontology.skips a = false
  relation : ∃ r, kb.ontology.relations.get? a.relation = some r
  domain : ∃ category, entityCategory kb.toWorld a.domain = .ok category
  target : ∃ category, entityCategory kb.toWorld a.target = .ok category
  domainInstance : newInstance kb.toWorld a.domain = .ok i?
  targetInstance : newInstance (kb.keep i?).toWorld a.target = .ok k?

theorem exec_ingestAnnotation_equipped {i? k? : Option Instance} (h : Equipped kb a i? k?) :
    exec ( ingestAnnotation a) kb =
      ((kb.keep i?).keep k?).conclude a (i?.toList.length + k?.toList.length) := by
  obtain ⟨htold, ⟨r, hr⟩, ⟨category, hdomain⟩, ⟨category', htarget⟩, hi, hk⟩ := h
  rw [exec_ingestAnnotation_allowed htold hr, hdomain, htarget]
  dsimp only
  rw [hi]
  dsimp only
  rw [hk]

/-- How an annotation can end: it is skipped, it is refused at once or when the instance of its
domain has been made, or its rule is added. -/
inductive Ended (kb : KnowledgeBase) (a : Annotation) : Except Error Report × KnowledgeBase → Prop
  where
  | skipped (h : kb.ontology.skips a = true) : Ended kb a (.ok { skipped := 1 }, kb)
  | refused {err : Error} (h : RefusedAtOnce kb.toWorld a) : Ended kb a (.error err, kb)
  | halfway {err : Error} {i : Instance} (h : newInstance kb.toWorld a.domain = .ok (some i)) :
      Ended kb a (.error err, kb.keep (some i))
  | concluded {i? k? : Option Instance} {run : Except Error Report × KnowledgeBase}
      (h : Equipped kb a i? k?)
      (hrun : ((kb.keep i?).keep k?).conclude a (i?.toList.length + k?.toList.length) = run) :
      Ended kb a run

theorem ended (kb : KnowledgeBase) (a : Annotation) :
    Ended kb a (exec ( ingestAnnotation a) kb) := by
  cases hskips : kb.ontology.skips a with
  | true =>
      rw [exec_ingestAnnotation_skipped hskips]
      exact .skipped hskips
  | false =>
  cases hr : kb.ontology.relations.get? a.relation with
  | none =>
      rw [exec_ingestAnnotation_unknown hskips hr]
      exact .refused (.unknown hr)
  | some r =>
  rw [exec_ingestAnnotation_allowed hskips hr]
  cases hdomain : entityCategory kb.toWorld a.domain with
  | error e => exact .refused (.domainType hdomain)
  | ok category =>
  cases htarget : entityCategory kb.toWorld a.target with
  | error e => exact .refused (.targetType htarget)
  | ok category' =>
  dsimp only
  cases hi : newInstance kb.toWorld a.domain with
  | error e => exact .refused (.domainName hi)
  | ok i? =>
  dsimp only
  cases hk : newInstance (kb.keep i?).toWorld a.target with
  | error e =>
      cases i? with
      | none => exact .refused (.targetName hi hk)
      | some i => exact .halfway hi
  | ok k? =>
      exact .concluded ⟨hskips, ⟨r, hr⟩, ⟨category, hdomain⟩, ⟨category', htarget⟩, hi, hk⟩ rfl

/-! ## Annotations and texts in a row -/

section Rows

variable {as : List Annotation} {report : Report} {err : Error}

theorem Report.plus_assoc (x y z : Report) : (x.plus y).plus z = x.plus (y.plus z) := by
  simp [Report.plus, Nat.add_assoc]

@[simp] theorem Report.zero_plus (x : Report) : Report.plus {} x = x := by
  simp [Report.plus]

theorem exec_ingestAnnotations_cons (a : Annotation) (rest : List Annotation)
    (kb : KnowledgeBase) :
    exec (ingestAnnotations (a :: rest)) kb =
      match exec ( ingestAnnotation a) kb with
      | (.error err, kb') => (.error err, kb')
      | (.ok first, kb') =>
        ((exec (ingestAnnotations rest) kb').1.map first.plus,
          (exec (ingestAnnotations rest) kb').2) := by
  rw [ingestAnnotations, exec_bind]
  rcases exec ( ingestAnnotation a) kb with ⟨outcome, kb'⟩
  cases outcome with
  | error err => rfl
  | ok first =>
      dsimp only
      rw [exec_bind]
      rcases exec (ingestAnnotations rest) kb' with ⟨outcome, kb''⟩
      cases outcome <;> rfl

/-- A row that goes through does so annotation by annotation. -/
theorem exists_of_ingestAnnotations_cons_ok
    (h : exec (ingestAnnotations (a :: as)) kb = (.ok report, kb')) :
    ∃ first kb₁ more, exec ( ingestAnnotation a) kb = (.ok first, kb₁) ∧
      exec (ingestAnnotations as) kb₁ = (.ok more, kb') ∧ report = first.plus more := by
  obtain ⟨first, kb₁, hfirst, h⟩ := exists_of_exec_bind h
  obtain ⟨more, kb₂, hmore, h⟩ := exists_of_exec_bind h
  cases h
  exact ⟨first, kb₁, more, hfirst, hmore, rfl⟩

/-- Annotations in two parts are learnt from one part after the other. -/
theorem exec_ingestAnnotations_append (as bs : List Annotation) (kb : KnowledgeBase) :
    exec (ingestAnnotations (as ++ bs)) kb =
      match exec (ingestAnnotations as) kb with
      | (.error err, kb') => (.error err, kb')
      | (.ok first, kb') =>
        ((exec (ingestAnnotations bs) kb').1.map first.plus,
          (exec (ingestAnnotations bs) kb').2) := by
  induction as generalizing kb with
  | nil =>
      show exec (ingestAnnotations bs) kb = ((exec (ingestAnnotations bs) kb).1.map _, _)
      rcases exec (ingestAnnotations bs) kb with ⟨outcome, kb'⟩
      cases outcome with
      | error err => rfl
      | ok report => simp [Except.map]
  | cons a as ih =>
      rw [List.cons_append, exec_ingestAnnotations_cons, exec_ingestAnnotations_cons]
      rcases exec ( ingestAnnotation a) kb with ⟨outcome, kb₁⟩
      cases outcome with
      | error err => rfl
      | ok first =>
          dsimp only
          rw [ih]
          rcases exec (ingestAnnotations as) kb₁ with ⟨outcome, kb₂⟩
          cases outcome with
          | error err => rfl
          | ok second =>
              dsimp only [Except.map]
              rcases exec (ingestAnnotations bs) kb₂ with ⟨outcome, kb₃⟩
              cases outcome with
              | error err => rfl
              | ok third => simp [Report.plus_assoc]

/-- Texts are learnt from as one row of annotations. -/
theorem exec_ingestAll (texts : List AnnotatedText) (kb : KnowledgeBase) :
    exec (ingestAll texts) kb =
      ((exec (ingestAnnotations (texts.flatMap AnnotatedText.annotations)) kb).1.map
          (Report.plus { documents := texts.length }),
        (exec (ingestAnnotations (texts.flatMap AnnotatedText.annotations)) kb).2) := by
  induction texts generalizing kb with
  | nil => rfl
  | cons t rest ih =>
      rw [ingestAll, exec_bind, List.flatMap_cons, exec_ingestAnnotations_append]
      rcases exec (ingestAnnotations t.annotations) kb with ⟨outcome, kb₁⟩
      cases outcome with
      | error err => rfl
      | ok first =>
          dsimp only
          rw [exec_bind, ih]
          rcases exec (ingestAnnotations (rest.flatMap AnnotatedText.annotations)) kb₁ with
            ⟨outcome, kb₂⟩
          cases outcome with
          | error err => rfl
          | ok second =>
              simp [Except.map, Report.plus]
              omega

/-- Whatever comes of it, all deductions are forgotten in the end. -/
theorem exec_ingest (texts : List AnnotatedText) (kb : KnowledgeBase) :
    exec (ingest texts) kb =
      ((exec (ingestAnnotations (texts.flatMap AnnotatedText.annotations)) kb).1.map
          (Report.plus { documents := texts.length }),
        (exec (ingestAnnotations (texts.flatMap AnnotatedText.annotations)) kb).2.reset) := by
  have hobserved : exec (ingest.observing (ingestAll texts)) kb =
      (.ok (exec (ingestAll texts) kb).1, (exec (ingestAll texts) kb).2) := by
    unfold ingest.observing
    rw [exec_tryCatch, ← bind_pure_comp, exec_bind]
    rcases exec (ingestAll texts) kb with ⟨outcome, kb'⟩
    cases outcome <;> rfl
  unfold ingest
  rw [exec_bind_ok hobserved, exec_bind_ok (exec_modify _ _), exec_ingestAll]
  rcases exec (ingestAnnotations (texts.flatMap AnnotatedText.annotations)) kb with ⟨outcome, kb'⟩
  cases outcome <;> rfl

/-- A row of annotations that fails has a first annotation that does. -/
theorem exists_of_ingestAnnotations_error (h : exec (ingestAnnotations as) kb = (.error err, kb')) :
    ∃ before a after report kb₁, as = before ++ a :: after ∧
      exec (ingestAnnotations before) kb = (.ok report, kb₁) ∧
      exec ( ingestAnnotation a) kb₁ = (.error err, kb') := by
  induction as generalizing kb with
  | nil => cases h
  | cons a rest ih =>
      rw [exec_ingestAnnotations_cons] at h
      cases hfirst : exec ( ingestAnnotation a) kb with
      | mk outcome kb₁ =>
          rw [hfirst] at h
          cases outcome with
          | error err' =>
              cases h
              exact ⟨[], a, rest, {}, kb, rfl, rfl, hfirst⟩
          | ok first =>
              dsimp only at h
              cases hrest : exec (ingestAnnotations rest) kb₁ with
              | mk outcome kb₂ =>
                  rw [hrest] at h
                  cases outcome with
                  | ok more => cases h
                  | error err' =>
                      cases h
                      obtain ⟨before, b, after, report, kb₃, rfl, hbefore, hb⟩ := ih hrest
                      refine ⟨a :: before, b, after, first.plus report, kb₃, rfl, ?_, hb⟩
                      rw [exec_ingestAnnotations_cons, hfirst]
                      dsimp only
                      rw [hbefore]
                      rfl

end Rows

end KnowledgeBase

end Credence
