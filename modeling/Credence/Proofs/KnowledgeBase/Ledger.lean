import Credence.Proofs.KnowledgeBase.Ingestion
import Credence.Proofs.KnowledgeBase.Operations
import Credence.Proofs.Ontology.Ledger

/-!
# Rules in order along a run

A run of a knowledge base keeps a ledger of its rules: edits write what they do into it, annotations
that are learnt from write the rules that they become, and nothing else writes.  At the end of every
run the rules of each relation are those of the ledger, the most confident first and equally
confident ones in the order in which they were inserted; and so are the conditions of each rule, by
their saliences (`rules_in_order`).
-/

namespace Credence

/-- Writes rules into a ledger, each with its relation. -/
def Ledger.recordAll (ledger : Ledger) (rules : List (String × Rule)) : Ledger :=
  rules.foldl (fun ledger entry => ledger.record (.addRule entry.1 entry.2)) ledger

theorem isNaN_clamp {x : Float} (h : x.isNaN = false) : (clamp x).isNaN = false := by
  unfold clamp
  split
  · rfl
  · split
    · rfl
    · exact h

namespace KnowledgeBase

open World (newInstance)
open Ontology (Lists)

variable {kb : KnowledgeBase} {ledger : Ledger} {a : Annotation} {α : Type} {o : Ontology}

/-! ## Annotations -/

/-- Whether an annotation becomes a rule: it tells, its relation is there and allows it, and both
entities have their instances or can be given them. -/
def learns (kb : KnowledgeBase) (a : Annotation) : Bool :=
  !kb.ontology.skips a && kb.ontology.relations.contains a.relation &&
    (entityCategory kb.toWorld a.domain).isOk && (entityCategory kb.toWorld a.target).isOk &&
    match newInstance kb.toWorld a.domain with
    | .ok i? => (newInstance (kb.keep i?).toWorld a.target).isOk
    | .error _ => false

/-- The rules that a row of annotations adds, each with its relation.  The row ends where one is
refused. -/
def lessons (kb : KnowledgeBase) : List Annotation → List (String × Rule)
  | [] => []
  | a :: rest =>
    let first := if kb.learns a then [(a.relation, kb.ruleOf a kb.supply.next)] else []
    match exec ( ingestAnnotation a) kb with
    | (.ok _, kb') => first ++ kb'.lessons rest
    | (.error _, _) => first

/-- A rule that an annotation becomes has no conditions. -/
theorem weighed_ruleOf (ha : a.confidence.isNaN = false) (w : World) (id : RuleId) :
    (w.ruleOf a id).Weighed :=
  ⟨isNaN_clamp ha, fun _ hc => nomatch hc⟩

theorem declared_ruleOf (w : World) (a : Annotation) (id : RuleId) :
    (w.ruleOf a id).declared = (w.ruleOf a id).listed := by
  have hnone : byWeight Condition.salience (w.ruleOf a id).conditions = [] := List.mergeSort_nil
  unfold Rule.listed
  rw [hnone]
  rfl

/-- An annotation writes the rule that it becomes, if it becomes one. -/
theorem lists_ingestAnnotation (h : kb.ontology.Lists ledger) (ha : a.confidence.isNaN = false) :
    (exec ( ingestAnnotation a) kb).2.ontology.Lists
      (bif kb.learns a then ledger.record (.addRule a.relation (kb.ruleOf a kb.supply.next))
        else ledger) := by
  unfold learns
  cases hskips : kb.ontology.skips a with
  | true =>
      rw [exec_ingestAnnotation_skipped hskips]
      exact h
  | false =>
  cases hr : kb.ontology.relations.get? a.relation with
  | none =>
      have hcontains : kb.ontology.relations.contains a.relation = false := by
        rw [Table.contains, hr]
        rfl
      rw [exec_ingestAnnotation_unknown hskips hr, hcontains]
      exact h
  | some r =>
  have hcontains : kb.ontology.relations.contains a.relation = true := by
    rw [Table.contains, hr]
    rfl
  rw [exec_ingestAnnotation_allowed hskips hr, hcontains]
  cases hdomain : entityCategory kb.toWorld a.domain with
  | error e => exact h
  | ok category =>
  cases htarget : entityCategory kb.toWorld a.target with
  | error e => exact h
  | ok category' =>
  dsimp only
  cases hi : newInstance kb.toWorld a.domain with
  | error e => exact h
  | ok i? =>
  dsimp only
  cases hk : newInstance (kb.keep i?).toWorld a.target with
  | error e =>
      show (kb.keep i?).ontology.Lists ledger
      rw [keep_ontology]
      exact h
  | ok k? =>
      show Lists (((kb.keep i?).keep k?).conclude a _).2.ontology _
      rw [ontology_conclude, keep_ontology, keep_ontology, ruleOf_keep, ruleOf_keep, supply_keep,
        supply_keep]
      exact h.withRule a.relation (weighed_ruleOf ha kb.toWorld _) (declared_ruleOf kb.toWorld a _)

theorem lists_ingestAnnotations {as : List Annotation} (h : kb.ontology.Lists ledger)
    (has : ∀ a ∈ as, a.confidence.isNaN = false) :
    (exec (ingestAnnotations as) kb).2.ontology.Lists (ledger.recordAll (kb.lessons as)) := by
  induction as generalizing kb ledger with
  | nil => exact h
  | cons a rest ih =>
      obtain ⟨ha, hrest⟩ := List.forall_mem_cons.mp has
      have hfirst := lists_ingestAnnotation h ha
      rw [exec_ingestAnnotations_cons, lessons]
      generalize exec ( ingestAnnotation a) kb = run at hfirst
      obtain ⟨outcome, kb'⟩ := run
      have hwritten : kb'.ontology.Lists (ledger.recordAll
          (if kb.learns a then [(a.relation, kb.ruleOf a kb.supply.next)] else [])) := by
        cases hlearns : kb.learns a with
        | true =>
            rw [hlearns] at hfirst
            exact hfirst
        | false =>
            rw [hlearns] at hfirst
            exact hfirst
      cases outcome with
      | error e => exact hwritten
      | ok report =>
          have hmore := ih hwritten hrest
          unfold Ledger.recordAll at hmore ⊢
          dsimp only
          rw [List.foldl_append]
          exact hmore

/-! ## Other steps -/

theorem ontology_update {change : Ontology.Change α} (kb : KnowledgeBase) :
    (exec (update change) kb).2.ontology = (exec change kb.ontology).2 := by
  rw [exec_update_snd]
  exact (World.syncStatics_keeps _).2

theorem preserves_ontology_register (i : Instance) :
    Preserves (fun kb => kb.ontology = o) (register i) :=
  preserves_get_bind fun _ h => preserves_bind (preserves_accept _) fun _ => preserves_set h

theorem preserves_ontology_addInstance (i : Instance) :
    Preserves (fun kb => kb.ontology = o) (addInstance i) :=
  preserves_get_bind fun _ _ => preserves_bind (preserves_accept _) fun _ =>
    preserves_ontology_register _

theorem preserves_ontology_mint : Preserves (fun kb => kb.ontology = o) mint := fun _ h => h

theorem preserves_ontology_createInstance (concept : String) (name? : Option String)
    (properties : Properties) :
    Preserves (fun kb => kb.ontology = o) (createInstance concept name? properties) := by
  unfold createInstance
  refine preserves_get_bind fun _ _ => preserves_bind (preserves_accept _) fun c => ?_
  -- what is left when there is a name
  have hmake : ∀ name, Preserves (fun kb : KnowledgeBase => kb.ontology = o) (do
      let i ← accept (c.factory.create concept name (c.seed.override properties))
      register i
      return i.key : Step InstanceKey) := fun name =>
    preserves_bind (preserves_accept _) fun i =>
      preserves_bind (preserves_ontology_register i) fun _ => preserves_pure _
  cases name? with
  | some name => exact hmake name
  | none => exact preserves_bind preserves_ontology_mint fun id => hmake id.toText

/-- Choosing a factory leaves the rules as they are. -/
theorem book_setFactory (concept : String) (factory : Factory) (kb : KnowledgeBase) :
    (exec (setFactory concept factory) kb).2.ontology.book = kb.ontology.book := by
  rw [exec_setFactory]
  cases kb.concept? concept with
  | none => rfl
  | some c =>
      dsimp only
      split
      · cases factory.create concept concept c.seed <;> rfl
      · rfl

theorem ontology_modifyProperty (key : InstanceKey) (property : String)
    (f : Properties → Properties) (kb : KnowledgeBase) :
    (exec (modifyProperty key property f) kb).2.ontology = kb.ontology := by
  rw [exec_modifyProperty]
  cases kb.registry.get? key <;> rfl

theorem ontology_infer (domain : Subject) (relation : String) (target : Subject) (conditions : Bool)
    (kb : KnowledgeBase) :
    (exec (infer domain relation target conditions) kb).2.ontology = kb.ontology :=
  congrArg World.ontology (toWorld_infer domain relation target conditions kb)

theorem ontology_deduce (d : World → Deduction α) (kb : KnowledgeBase) :
    (exec (deduce d) kb).2.ontology = kb.ontology :=
  congrArg World.ontology (toWorld_deduce d kb)

/-! ## All operations -/

/-- What an operation writes into the ledger of a knowledge base: an edit, if it goes through, and
the rules that annotations become. -/
def Operation.record (kb : KnowledgeBase) (ledger : Ledger) : Operation α → Ledger
  | .mutation (.edit edit) =>
      if (exec edit.assembled.change kb.ontology).1.isOk then ledger.record edit else ledger
  | .ingest texts => ledger.recordAll (kb.lessons (texts.flatMap AnnotatedText.annotations))
  | _ => ledger

/-- An operation whose rules are built by insertions. -/
def Operation.assembled : Operation α → Operation α
  | .mutation (.edit edit) => .mutation (.edit edit.assembled)
  | op => op

/-- What an operation brings in is proper, and no annotation has an undefined confidence. -/
def Operation.Proper : Operation α → Prop
  | .mutation (.edit edit) => edit.Proper
  | .ingest texts => ∀ text ∈ texts, ∀ a ∈ text.annotations, a.confidence.isNaN = false
  | _ => True

/-- Every proper operation is followed in the ledger. -/
theorem lists_operation (h : kb.ontology.Lists ledger) (op : Operation α) (hproper : op.Proper) :
    (exec op.assembled.step kb).2.ontology.Lists (op.record kb ledger) := by
  cases op with
  | mutation m =>
      cases m with
      | edit edit =>
          show (exec (update edit.assembled.change) kb).2.ontology.Lists _
          rw [ontology_update]
          exact h.edit edit hproper
      | importBundle name =>
          show (exec (update (Ontology.importBundle name)) kb).2.ontology.Lists _
          rw [ontology_update]
          exact h.congr (Ontology.book_importBundle _ name)
      | setFactory concept factory => exact h.congr (book_setFactory concept factory kb)
      | addInstance i =>
          exact h.congr (congrArg Ontology.book (preserves_ontology_addInstance i kb rfl))
      | createInstance concept name? properties =>
          exact h.congr (congrArg Ontology.book
            (preserves_ontology_createInstance concept name? properties kb rfl))
  | recompute =>
      show (exec (update (modify Ontology.rebuild)) kb).2.ontology.Lists _
      rw [ontology_update]
      exact h.congr (Ontology.book_rebuild _)
  | rebuild =>
      show (exec KnowledgeBase.rebuild kb).2.ontology.Lists _
      rw [exec_rebuild]
      refine h.congr ?_
      show Ontology.book (World.syncStatics _).2.ontology = _
      rw [(World.syncStatics_keeps _).2]
      exact Ontology.book_rebuild _
  | modifyProperty key property f =>
      exact h.congr (congrArg Ontology.book (ontology_modifyProperty key property f kb))
  | mint => exact h
  | ingest texts =>
      have hdefined : ∀ a ∈ texts.flatMap AnnotatedText.annotations, a.confidence.isNaN = false := by
        intro a ha
        obtain ⟨text, htext, hmem⟩ := List.mem_flatMap.mp ha
        exact hproper text htext a hmem
      show (exec (KnowledgeBase.ingest texts) kb).2.ontology.Lists _
      rw [exec_ingest]
      exact lists_ingestAnnotations h hdefined
  | infer domain relation target conditions =>
      show (exec (KnowledgeBase.infer domain relation target conditions) kb).2.ontology.Lists _
      rw [ontology_infer]
      exact h
  | inquire domain relation target conditions =>
      show (exec (deduce fun w => w.inferValues World.remembered w.reasoner domain relation target
        conditions) kb).2.ontology.Lists _
      rw [ontology_deduce]
      exact h
  | evaluate e scenario =>
      show (exec (KnowledgeBase.evaluate e scenario) kb).2.ontology.Lists _
      unfold KnowledgeBase.evaluate
      rw [ontology_deduce]
      exact h
  | reset => exact h

/-! ## Runs -/

/-- Operations whose rules are built by insertions. -/
def assembled (ops : Agenda) : Agenda := ops.map fun op => ⟨op.1, op.2.assembled⟩

/-- The ledger that a run leaves. -/
def ledgerAfter (kb : KnowledgeBase) (ledger : Ledger) : Agenda → Ledger
  | [] => ledger
  | op :: rest => ledgerAfter (exec op.2.assembled.step kb).2 (op.2.record kb ledger) rest

theorem lists_after {ops : Agenda} (h : kb.ontology.Lists ledger) (hproper : ∀ op ∈ ops, op.2.Proper) :
    (after kb (assembled ops)).ontology.Lists (kb.ledgerAfter ledger ops) := by
  induction ops generalizing kb ledger with
  | nil => exact h
  | cons op rest ih =>
      obtain ⟨hfirst, hrest⟩ := List.forall_mem_cons.mp hproper
      exact ih (lists_operation h op.2 hfirst) hrest

/-- At the end of every run each relation has the rules that were inserted and not removed, as a
stable sort by descending confidence of the order of insertion, and each rule has its conditions as a
stable sort by descending salience of their order of insertion.  The ledger is what the run has
written: insertions at the end, removals and changes at their places, and nothing by any other
operation. -/
theorem rules_in_order (supply : Supply) {ops : Agenda} (hproper : ∀ op ∈ ops, op.2.Proper)
    (name : String) :
    ((after { supply } (assembled ops)).ontology.relations.get? name).map
        (fun r => r.rules.map Rule.declared) =
      ((ledgerAfter { supply } ∅ ops).get? name).map fun rules =>
        (rules.mergeSort fun a b => b.confidence ≤ a.confidence).map fun rule =>
          { rule.declared with
            conditions := rule.conditions.mergeSort fun c d => d.salience ≤ c.salience } := by
  have hlists : (after { supply } (assembled ops)).ontology.Lists (ledgerAfter { supply } ∅ ops) :=
    lists_after Ontology.Lists.empty hproper
  have hbook := hlists.book name
  rw [Ontology.get?_book] at hbook
  exact hbook

/-- A condition, if its text can be read. -/
def readable (logic : String) (salience : Float) : List Condition :=
  (Condition.compile logic salience).toOption.toList

theorem compile_of_mem_readable {logic : String} {salience : Float} {c : Condition}
    (h : c ∈ readable logic salience) : Condition.compile c.logic c.salience = .ok c := by
  unfold readable at h
  cases hc : Condition.compile logic salience with
  | error e =>
      rw [hc] at h
      nomatch h
  | ok d =>
      rw [hc] at h
      rw [List.mem_singleton.mp h]
      exact Condition.compile_self hc

/-- People who know each other.  The relation comes with two rules, the weaker one first; a rule as
strong as the stronger one follows, with two conditions, and then one as weak as the weaker one.  Of
the two weak rules the first is removed, and of the conditions the more salient one. -/
def circles : Agenda :=
  let person : Concept := { name := "Person", category := .dynamic }
  let people : Members := { bases := KeySet.ofList [.concept "Person"] }
  let rule (n : Nat) (confidence : Float) (conditions : List Condition) : Rule :=
    { id := ⟨BitVec.ofNat 128 n⟩, domains := people, targets := people, confidence, conditions }
  let knows : Relation :=
    { name := "knows"
      domains := [{ bases := KeySet.ofList ["Person"] }]
      targets := [{ bases := KeySet.ofList ["Person"] }]
      rules := [rule 1 0.25 [], rule 2 0.75 []] }
  [⟨_, .mutation (.edit (.addConcept person))⟩, ⟨_, .mutation (.edit (.addRelation knows))⟩,
    ⟨_, .mutation (.edit (.addRule "knows"
      (rule 3 0.75 (readable "@.age" 0.25 ++ readable "%.age" 0.5))))⟩,
    ⟨_, .mutation (.edit (.addRule "knows" (rule 4 0.25 [])))⟩,
    ⟨_, .mutation (.edit (.removeRule "knows" ⟨1⟩))⟩,
    ⟨_, .mutation (.edit (.removeCondition "knows" ⟨3⟩ 0))⟩]

theorem proper_circles : ∀ op ∈ circles, op.2.Proper := by
  unfold circles
  dsimp only
  simp only [List.forall_mem_cons]
  refine ⟨trivial, ?_, ⟨rfl, ?_⟩, ⟨rfl, List.forall_mem_nil _⟩, trivial, trivial,
    List.forall_mem_nil _⟩
  · show ∀ rule ∈ [_, _], Rule.Proper rule
    rw [List.forall_mem_cons, List.forall_mem_singleton]
    exact ⟨⟨rfl, List.forall_mem_nil _⟩, ⟨rfl, List.forall_mem_nil _⟩⟩
  · intro c hc
    rcases List.mem_append.mp hc with hc | hc
    · exact compile_of_mem_readable hc
    · exact compile_of_mem_readable hc

/-- The strong rules come first, the one that was attached before the one that was added. -/
theorem rules_in_order_circles :
    ((ledgerAfter {} ∅ circles).get? "knows").map (fun rules =>
      (rules.mergeSort fun a b => b.confidence ≤ a.confidence).map fun rule =>
        (rule.id, (rule.conditions.mergeSort fun c d => d.salience ≤ c.salience).map
          Condition.logic)) =
      some [(⟨2⟩, []), (⟨3⟩, ["@.age"]), (⟨4⟩, [])] := by
  have hrun : ((after {} (assembled circles)).ontology.relations.get? "knows").map (fun r =>
      (r.rules.map Rule.declared).map fun rule => (rule.id, rule.conditions.map Condition.logic)) =
      some [(⟨2⟩, []), (⟨3⟩, ["@.age"]), (⟨4⟩, [])] := by
    decide +kernel
  have hordered := congrArg
    (Option.map (List.map fun rule : Rule => (rule.id, rule.conditions.map Condition.logic)))
    (rules_in_order ⟨0, 0⟩ proper_circles "knows")
  simp only [Option.map_map, Function.comp_def, List.map_map] at hordered hrun
  exact hordered.symm.trans hrun

end KnowledgeBase

end Credence
