import Credence.Proofs.Annotation.Mentions
import Credence.Proofs.KnowledgeBase.Accounting

/-!
# From a text to its rules

A text is searched for entities, these are paired up under a relation, and the pairs are learnt
from.  Each of the three stages looks at concepts and at the relation for itself, and they agree
(`KnowledgeBase.ingest_annotate`): whatever was found and paired is learnt, unless a factory refuses
the name of an instance that has to be made.

What makes an annotation acceptable (`KnowledgeBase.Acceptable`) is a matter of the scheme of the
ontology, which stays the same from annotation to annotation.  So does the one reason to refuse it:
no factory changes, and instances only come.
-/

namespace Credence

namespace World

variable {w w' : World} {e : Entity} {err : Error}

/-- An entity has no instance yet, and the factory of its concept refuses to make one of that
name. -/
def RefusesForm (w : World) (e : Entity) (err : Error) : Prop :=
  ∃ c, w.concept? e.classType = some c ∧ c.category = .dynamic ∧
    w.registry.contains ⟨e.classType, e.surfaceForm⟩ = false ∧
    c.factory.create e.classType e.surfaceForm c.seed = .error err

/-- A date was expected, or an address. -/
theorem RefusesForm.eq_violation (h : w.RefusesForm e err) :
    err = .violation (.noDate e.surfaceForm) ∨ err = .violation (.noAddress e.surfaceForm) := by
  obtain ⟨c, -, -, -, hcreate⟩ := h
  unfold Factory.create at hcreate
  split at hcreate
  · cases hcreate
  · split at hcreate
    · cases hcreate
    · cases hcreate
      exact .inl rfl
  · split at hcreate
    · cases hcreate
    · cases hcreate
      exact .inr rfl

/-- What is refused was refused before, while the scheme stays and no instance goes. -/
theorem RefusesForm.of_scheme (h : w'.RefusesForm e err)
    (hscheme : w'.ontology.scheme = w.ontology.scheme)
    (hregistry : ∀ key, w.registry.contains key = true → w'.registry.contains key = true) :
    w.RefusesForm e err := by
  obtain ⟨c', hc', hdynamic, hmissing, hcreate⟩ := h
  obtain ⟨c, memberships, hc, rfl⟩ := Ontology.exists_concept_of_scheme hscheme hc'
  refine ⟨c, hc, hdynamic, Bool.eq_false_iff.mpr fun hthere => ?_, hcreate⟩
  rw [hregistry _ hthere] at hmissing
  cases hmissing

end World

namespace KnowledgeBase

variable {kb kb' : KnowledgeBase} {a : Annotation} {as : List Annotation} {e : Entity} {err : Error}

theorem exists_entityCategory {w : World} (h : w.Instantiable e.classType) :
    ∃ category, entityCategory w e = .ok category := by
  obtain ⟨c, hc, hcategory⟩ := h
  refine ⟨c.category, ?_⟩
  unfold entityCategory
  rw [hc]
  dsimp only
  rw [if_neg hcategory]

/-- The one reason for which an instance cannot be made. -/
theorem refusesForm_of_newInstance {w : World} {category : Category}
    (he : entityCategory w e = .ok category) (h : w.newInstance e = .error err) :
    w.RefusesForm e err := by
  obtain ⟨c, hc, rfl, habstract⟩ := entityCategory_eq_ok he
  unfold World.newInstance at h
  rw [hc] at h
  dsimp only at h
  split at h
  · cases h
  · rename_i hneeded
    obtain ⟨hstatic, hmissing⟩ := not_or.mp hneeded
    refine ⟨c, hc, ?_, Bool.eq_false_iff.mpr hmissing, ?_⟩
    · cases hcategory : c.category with
      | abstract => exact absurd hcategory habstract
      | static => exact absurd hcategory hstatic
      | dynamic => rfl
    · cases hmade : c.factory.create e.classType e.surfaceForm c.seed with
      | ok i =>
          rw [hmade] at h
          cases h
      | error err' =>
          rw [hmade] at h
          cases h
          rfl

/-- Only a factory can refuse an acceptable annotation. -/
theorem refusesForm_of_ingestAnnotation (hhoused : kb.Housed) (hfurnished : kb.Furnished)
    (ha : kb.Acceptable a) (hrun : exec ( ingestAnnotation a) kb = (.error err, kb')) :
    kb.RefusesForm a.domain err ∨ kb.RefusesForm a.target err := by
  obtain ⟨r, hr⟩ := ha.relation
  obtain ⟨category, hdomain⟩ := ha.domain
  obtain ⟨category', htarget⟩ := ha.target
  rw [exec_ingestAnnotation_allowed ha.told hr, hdomain, htarget] at hrun
  dsimp only at hrun
  cases hi : World.newInstance kb.toWorld a.domain with
  | error err' =>
      rw [hi] at hrun
      cases hrun
      exact .inl (refusesForm_of_newInstance hdomain hi)
  | ok i? =>
  rw [hi] at hrun
  dsimp only at hrun
  have hscheme : (kb.keep i?).ontology.scheme = kb.ontology.scheme :=
    congrArg Ontology.scheme (kb.keep_ontology i?)
  cases hk : World.newInstance (kb.keep i?).toWorld a.target with
  | error err' =>
      rw [hk] at hrun
      cases hrun
      have hrefused := refusesForm_of_newInstance ((entityCategory_congr hscheme).trans htarget) hk
      exact .inr (hrefused.of_scheme hscheme fun _ => contains_keep)
  | ok k? =>
      -- both instances are there, and the registry can follow the new rule
      rw [hk] at hrun
      dsimp only at hrun
      rw [conclude_of_furnished (housed_keep (housed_keep hhoused hi) hk)
        (furnished_keep (furnished_keep hfurnished i?) k?)] at hrun
      cases hrun

/-- Only a factory can refuse a row of acceptable annotations, and it would have refused from the
start. -/
theorem refusesForm_of_ingestAnnotations (h : kb.Sound) (hfurnished : kb.Furnished)
    (has : ∀ a ∈ as, kb.Acceptable a)
    (hrun : exec (ingestAnnotations as) kb = (.error err, kb')) :
    ∃ a ∈ as, kb.RefusesForm a.domain err ∨ kb.RefusesForm a.target err := by
  obtain ⟨before, a, after, report, kb₁, rfl, hbefore, hfailed⟩ :=
    exists_of_ingestAnnotations_error hrun
  have hlearnt := learnt_annotations h hfurnished hbefore
  have hsound := (sustains_ingestAnnotations before).sound h hbefore
  have ha : a ∈ before ++ a :: after := List.mem_append_right before List.mem_cons_self
  refine ⟨a, ha, ?_⟩
  have hrefused := refusesForm_of_ingestAnnotation hsound.housed (hlearnt.furnished hfurnished)
    ((has a ha).of_scheme hlearnt.scheme) hfailed
  exact hrefused.imp
    (fun hdomain => hdomain.of_scheme hlearnt.scheme fun _ => hlearnt.contains)
    (fun htarget => htarget.of_scheme hlearnt.scheme fun _ => hlearnt.contains)

/-! ## What is made of a text -/

/-- Entities are paired up as the relation allows. -/
theorem mem_annotate {o : Ontology} {text : String} {entities : List Entity} {relation : String}
    {classification : Classification}
    (ha : a ∈ (annotate o text entities relation classification).annotations) :
    a.domain ∈ entities ∧ a.target ∈ entities ∧ a.relation = relation ∧
      a.classification = classification ∧
      ∃ r, o.relations.get? relation = some r ∧
        r.between a.domain.classType a.target.classType = true := by
  unfold annotate at ha
  dsimp only at ha
  split at ha
  · exact absurd ha List.not_mem_nil
  · rename_i r hr
    obtain ⟨domain, hdomain, ha⟩ := List.mem_flatMap.mp ha
    obtain ⟨target, htarget, rfl⟩ := List.mem_map.mp ha
    obtain ⟨htarget, hallowed⟩ := List.mem_filter.mp htarget
    exact ⟨hdomain, htarget, rfl, rfl, r, hr, (Bool.and_eq_true_iff.mp hallowed).2⟩

theorem acceptable_of_mem_annotate {text : String} {entities : List Entity} {relation : String}
    {classification : Classification} (htells : classification ≠ .insufficient)
    (hentities : ∀ e ∈ entities, kb.Instantiable e.classType)
    (ha : a ∈ (annotate kb.ontology text entities relation classification).annotations) :
    kb.Acceptable a := by
  obtain ⟨hdomain, htarget, hrelation, hclassification, r, hr, hbetween⟩ := mem_annotate ha
  rw [← hrelation] at hr
  refine ⟨Ontology.skips_eq_false_iff.mpr ⟨hclassification ▸ htells, fun r' hr' => ?_⟩, ⟨r, hr⟩,
    exists_entityCategory (hentities _ hdomain), exists_entityCategory (hentities _ htarget)⟩
  rw [hr] at hr'
  rw [← Option.some.inj hr']
  exact hbetween

/-- A text is searched, what is found is paired up, and the pairs are learnt from.  Whatever is found
is of a concept that exists and may have instances, and is found once.  Then every pair becomes a
rule, or a factory refuses the name of an entity that has no instance. -/
theorem ingest_annotate (h : kb.Reachable) (hfurnished : kb.Furnished) (text relation : String)
    (classification : Classification) (htells : classification ≠ .insufficient) :
    let entities := (Gazetteer.ofWorld kb.toWorld).extract text
    let annotated := annotate kb.ontology text entities relation classification
    (∀ e ∈ entities, kb.Instantiable e.classType) ∧
      (entities.map fun e => (e.classType, Text.lowercase e.surfaceForm)).Nodup ∧
      ((∃ report kb', exec (ingest [annotated]) kb = (.ok report, kb') ∧
          report.rulesAdded = annotated.annotations.length ∧ report.skipped = 0) ∨
        ∃ err kb', exec (ingest [annotated]) kb = (.error err, kb') ∧
          ∃ e ∈ entities, kb.RefusesForm e err ∧
            (err = .violation (.noDate e.surfaceForm) ∨
              err = .violation (.noAddress e.surfaceForm))) := by
  intro entities annotated
  have hentities : ∀ e ∈ entities, kb.Instantiable e.classType := fun e he =>
    Gazetteer.instantiable_of_mem_extract h.sound.ontology.kept.linked he
  have hacceptable : ∀ a ∈ annotated.annotations, kb.Acceptable a := fun a ha =>
    acceptable_of_mem_annotate htells hentities ha
  refine ⟨hentities, Gazetteer.nodup_extract _ text, ?_⟩
  rw [exec_ingest, List.flatMap_singleton]
  cases hrow : exec (ingestAnnotations annotated.annotations) kb with
  | mk outcome kb₁ =>
  cases outcome with
  | error err =>
      obtain ⟨a, ha, hrefused⟩ :=
        refusesForm_of_ingestAnnotations h.sound hfurnished hacceptable hrow
      obtain ⟨hdomain, htarget, -⟩ := mem_annotate ha
      refine .inr ⟨err, kb₁.reset, rfl, ?_⟩
      rcases hrefused with hrefused | hrefused
      · exact ⟨a.domain, hdomain, hrefused, hrefused.eq_violation⟩
      · exact ⟨a.target, htarget, hrefused, hrefused.eq_violation⟩
  | ok report =>
      have hlearnt := learnt_annotations h.sound hfurnished hrow
      have htold : ∀ a ∈ annotated.annotations, kb.ontology.skips a = false :=
        fun a ha => (hacceptable a ha).told
      refine .inl ⟨_, kb₁.reset, rfl, ?_, ?_⟩
      · rw [hlearnt.plus_documents]
        show report.rulesAdded = annotated.annotations.length
        rw [hlearnt.rulesAdded, List.countP_eq_length]
        exact fun a ha => by rw [htold a ha, Bool.not_false]
      · rw [hlearnt.plus_documents]
        show report.skipped = 0
        rw [hlearnt.skipped, List.countP_eq_zero]
        exact fun a ha => Bool.eq_false_iff.mp (htold a ha)

/-! ## A log of who was seen when -/

/-- A cat, a day, and when cats are seen. -/
def logbook : KnowledgeBase :=
  let seen : Relation :=
    { name := "seen"
      domains := [{ bases := KeySet.ofList ["Cat"] }]
      targets := [{ bases := KeySet.ofList ["Day"] }] }
  let cat : Concept := { name := "Cat", category := .dynamic }
  let day : Concept := { name := "Day", category := .dynamic, chosenFactory := some .date }
  let kb := (exec (update (Ontology.addConcept cat)) {}).2
  let kb := (exec (update (Ontology.addConcept day)) kb).2
  let kb := (exec (update (Ontology.addRelation seen)) kb).2
  let kb := (exec (createInstance "Cat" (some "Tom") ∅) kb).2
  (exec (createInstance "Day" (some "2024-05-01") ∅) kb).2

/-- The forms stand in their order already. -/
theorem forms_logbook : (Gazetteer.ofWorld logbook.toWorld).forms =
    ["2024-05-01", "cat", "day", "tom"].map String.toList := by
  have hkeys : (Gazetteer.ofWorld logbook.toWorld).surfaces.keys =
      ["2024-05-01", "cat", "day", "tom"] := by decide +kernel
  show List.mergeSort ((Gazetteer.ofWorld logbook.toWorld).surfaces.keys.map String.toList)
    Gazetteer.before = _
  rw [hkeys]
  exact List.mergeSort_of_pairwise (by decide +kernel)

/-- Two forms with one meaning each. -/
theorem extract_logbook {text : String} (first second : String) {e e' : Entity}
    (hfound : Gazetteer.search (["2024-05-01", "cat", "day", "tom"].map String.toList)
      ((Text.composeChars text.toList).length + 1) none (Text.composeChars text.toList) =
        [first.toList, second.toList])
    (hfirst : ((Gazetteer.ofWorld logbook.toWorld).candidatesOf first).foldl Gazetteer.sift
      ([], []) = ([e], [e.mention]))
    (hsecond : ((Gazetteer.ofWorld logbook.toWorld).candidatesOf second).foldl Gazetteer.sift
      ([], [e.mention]) = ([e'], [e'.mention, e.mention])) :
    (Gazetteer.ofWorld logbook.toWorld).extract text = [e, e'] := by
  unfold Gazetteer.extract
  rw [forms_logbook]
  dsimp only
  rw [hfound]
  simp only [Gazetteer.entities, Gazetteer.meanings_eq_sift, String.ofList_toList, hfirst, hsecond,
    List.mergeSort_singleton, List.singleton_append, List.append_nil]

/-- A day that is in the log is learnt from, and any other word for a day is refused as a date. -/
theorem ingest_annotate_logbook :
    let learn (text : String) := exec (ingest [annotate logbook.ontology text
      ((Gazetteer.ofWorld logbook.toWorld).extract text) "seen" .positive]) logbook
    (∃ report kb', learn "Tom was seen on 2024-05-01" = (.ok report, kb') ∧
      report.rulesAdded = 1 ∧ report.skipped = 0) ∧
    ∃ err kb', learn "Tom was seen some day" = (.error err, kb') ∧
      logbook.RefusesForm ⟨"Day", "day", 0.9⟩ err := by
  have hreachable : logbook.Reachable :=
    .createInstance (.createInstance (.update (.update (.update (.empty _) _
      fun o ho => ho.addConcept _) _ fun o ho => ho.addConcept _) _
      fun o ho => ho.addRelation (List.forall_mem_nil _)) _ _ _) _ _ _
  have hfurnished : logbook.Furnished := by decide +kernel
  let tom : Entity := ⟨"Cat", "Tom", 1⟩
  have htom : logbook.registry.contains ⟨"Cat", "Tom"⟩ = true := by decide +kernel
  have hday : logbook.registry.contains ⟨"Day", "2024-05-01"⟩ = true := by decide +kernel
  intro learn
  constructor
  · have hextract : (Gazetteer.ofWorld logbook.toWorld).extract "Tom was seen on 2024-05-01" =
        [tom, ⟨"Day", "2024-05-01", 1⟩] :=
      extract_logbook "Tom" "2024-05-01" (by decide +kernel) rfl rfl
    obtain ⟨-, -, hlearnt | hrefused⟩ := ingest_annotate hreachable hfurnished
      "Tom was seen on 2024-05-01" "seen" .positive (by decide)
    · obtain ⟨report, kb', hrun, hadded, hskipped⟩ := hlearnt
      refine ⟨report, kb', hrun, hadded.trans ?_, hskipped⟩
      rw [hextract]
      decide +kernel
    · -- both instances are there
      obtain ⟨err, kb', -, e, he, ⟨c, -, -, hmissing, -⟩, -⟩ := hrefused
      rw [hextract] at he
      rcases List.mem_pair.mp he with rfl | rfl
      · exact absurd htom (Bool.eq_false_iff.mp hmissing)
      · exact absurd hday (Bool.eq_false_iff.mp hmissing)
  · have hextract : (Gazetteer.ofWorld logbook.toWorld).extract "Tom was seen some day" =
        [tom, ⟨"Day", "day", 0.9⟩] :=
      extract_logbook "Tom" "day" (by decide +kernel) rfl rfl
    have hfails : (learn "Tom was seen some day").1.isOk = false := by
      show (exec (ingest [annotate _ _ (Gazetteer.extract _ _) _ _]) logbook).1.isOk = false
      rw [hextract]
      decide +kernel
    obtain ⟨-, -, hlearnt | hrefused⟩ := ingest_annotate hreachable hfurnished
      "Tom was seen some day" "seen" .positive (by decide)
    · obtain ⟨report, kb', hrun, -⟩ := hlearnt
      have hsucceeds : learn "Tom was seen some day" = (.ok report, kb') := hrun
      rw [hsucceeds] at hfails
      cases hfails
    · obtain ⟨err, kb', hrun, e, he, hrefuses, -⟩ := hrefused
      refine ⟨err, kb', hrun, ?_⟩
      rw [hextract] at he
      rcases List.mem_pair.mp he with rfl | rfl
      · obtain ⟨c, -, -, hmissing, -⟩ := hrefuses
        exact absurd htom (Bool.eq_false_iff.mp hmissing)
      · exact hrefuses

end KnowledgeBase

end Credence
