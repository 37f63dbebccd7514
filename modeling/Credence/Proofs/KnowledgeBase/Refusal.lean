import Credence.Proofs.KnowledgeBase.Reachable
import Credence.Proofs.Ontology.Refusal
import Credence.Proofs.World.Registry

/-!
# Failures of a knowledge base

What a step leaves behind when it fails.  Instances are looked at before they are registered, so a
refused instance leaves nothing.  A change of the ontology comes first and the registry follows.  If
the ontology refuses the change, the registry follows what is there, which leaves a furnished world
as it was.  If the ontology takes the change, the change stays, also when the instance of a static
concept cannot be made then (`Stuck`): nothing is taken back.

Bundles are imported concept by concept, so a refusal leaves the concepts that came before it.
-/

namespace Credence

namespace Ontology

variable {o o' : Ontology} {α : Type}

/-! ## Edits keep the concepts under their names -/

theorem Linked.recount_relations (ho : o.Linked) (relations : Table String Relation) :
    (recount { o with relations }).Linked := by
  have hshape : o.shape = (recount { o with relations }).shape :=
    shape_eq_of_declared (declared_recount { o with relations }).symm
  exact ho.congr hshape

theorem linked_addRelation (ho : o.Linked) (r : Relation) : (exec (addRelation r) o).2.Linked := by
  unfold addRelation
  rw [exec_bind_ok (exec_get o)]
  dsimp only
  split
  · rw [exec_violates_bind]
    exact ho
  · exact exec_bind_of_check (exec_forM_ofExcept _ _ o) ho fun _ _ => ho.recount_relations _

theorem linked_addRule (ho : o.Linked) (name : String) (rule : Rule) :
    (exec (addRule name rule) o).2.Linked := by
  unfold addRule
  rw [exec_bind, exec_theRelation]
  cases o.relations.get? name with
  | none => exact ho
  | some r =>
      dsimp only
      rw [exec_bind_ok (exec_get o)]
      exact exec_bind_of_check (exec_ofExcept _ o) ho fun _ _ => ho.recount_relations _

theorem linked_addCondition (ho : o.Linked) (name : String) (id : RuleId) (c : Condition) :
    (exec (addCondition name id c) o).2.Linked := by
  unfold addCondition modifyRule
  rw [exec_bind, exec_theRelation]
  cases o.relations.get? name with
  | none => exact ho
  | some r =>
      dsimp only
      cases r.rule? id with
      | none => exact ho.recount_relations _
      | some rule => exact ho.recount_relations _

theorem Kept.linked_edit (ho : o.Kept) (edit : Edit α) : (exec edit.change o).2.Linked := by
  cases edit with
  | addConcept c => exact (kept_addConcept ho c).linked
  | removeConcept name => exact (kept_removeConcept ho name).linked
  | addParent child parent => exact (kept_addParent ho child parent).linked
  | removeParent child parent => exact (kept_removeParent ho child parent).linked
  | addAlias concept other => exact (kept_addAlias ho concept other).linked
  | removeAlias concept other => exact (kept_removeAlias ho concept other).linked
  | setProperty concept key value => exact (kept_setProperty ho concept key value).linked
  | removeProperty concept key => exact (kept_removeProperty ho concept key).linked
  | addRelation r => exact linked_addRelation ho.linked r
  | removeRelation name => exact (kept_removeRelation ho name).linked
  | addRule relation rule => exact linked_addRule ho.linked relation rule
  | removeRule relation id => exact (kept_removeRule ho relation id).linked
  | addCondition relation id c => exact linked_addCondition ho.linked relation id c
  | removeCondition relation id index => exact (kept_removeCondition ho relation id index).linked
  | addRuleMember relation id side member =>
      exact (kept_addRuleMember ho relation id side member).linked
  | removeRuleMember relation id side member =>
      exact (kept_removeRuleMember ho relation id side member).linked

/-! ## Bundles -/

/-- Concepts are added up to the one that is refused. -/
theorem exists_of_addMissing_error {concepts : List Concept} {e : Error}
    (h : exec (addMissing concepts) o = (.error e, o')) :
    ∃ before added, before <+: concepts ∧ exec (addMissing before) o = (.ok added, o') := by
  induction concepts generalizing o with
  | nil => cases h
  | cons c rest ih =>
      rw [addMissing, exec_bind_ok (exec_get o)] at h
      by_cases hold : o.hasConcept c.name = true
      · rw [if_pos hold] at h
        obtain ⟨before, added, hfront, hbefore⟩ := ih h
        refine ⟨c :: before, added, List.cons_prefix_cons.mpr ⟨rfl, hfront⟩, ?_⟩
        rw [addMissing, exec_bind_ok (exec_get o), if_pos hold]
        exact hbefore
      · rw [if_neg hold, exec_bind] at h
        cases hadded : exec (addConcept c) o with
        | mk outcome o₁ =>
            rw [hadded] at h
            cases outcome with
            | error e' =>
                cases h
                obtain rfl := atomic_addConcept o c _ _ hadded
                exact ⟨[], [], List.nil_prefix, rfl⟩
            | ok u =>
                dsimp only at h
                rw [exec_bind] at h
                cases hrest : exec (addMissing rest) o₁ with
                | mk outcome' o₂ =>
                    rw [hrest] at h
                    cases outcome' with
                    | ok names => cases h
                    | error e' =>
                        cases h
                        obtain ⟨before, added, hfront, hbefore⟩ := ih hrest
                        refine ⟨c :: before, c.name :: added,
                          List.cons_prefix_cons.mpr ⟨rfl, hfront⟩, ?_⟩
                        rw [addMissing, exec_bind_ok (exec_get o), if_neg hold,
                          exec_bind_ok hadded, exec_bind_ok hbefore]
                        rfl

/-- The concepts of a bundle; a name that is no bundle's has none. -/
def bundled (name : String) : List Concept := (Bundle.ofName? name).elim [] Bundle.concepts

theorem exists_of_importBundle_error {name : String} {e : Error}
    (h : exec (importBundle name) o = (.error e, o')) :
    ∃ before added, before <+: bundled name ∧ exec (addMissing before) o = (.ok added, o') := by
  unfold importBundle at h
  unfold bundled
  cases hb : Bundle.ofName? name with
  | none =>
      rw [hb] at h
      cases h
      exact ⟨[], [], List.nil_prefix, rfl⟩
  | some b =>
      rw [hb] at h
      exact exists_of_addMissing_error h

end Ontology

namespace World

variable {w w' : World} {e : Error} {name : String}

/-! ## Instances of static concepts that cannot be made -/

/-- The registry could not be brought in line with the ontology.  A static concept is without its
instance, because its factory refuses its name, and the world is as far as that. -/
def Stuck (w : World) (e : Error) (w' : World) : Prop :=
  w.syncStatics = (.error e, w') ∧ w'.ontology = w.ontology ∧
    ∃ name c, w.concept? name = some c ∧ c.category = .static ∧
      w'.registry.contains (.singleton name) = false ∧
      c.factory.create name name c.seed = .error e

theorem stuck_of_syncStatics (ho : w.ontology.Linked) (h : w.syncStatics = (.error e, w')) :
    w.Stuck e w' := by
  have hontology : w'.ontology = w.ontology := by
    rw [← (syncStatics_keeps w).2, h]
  have hpending : ∀ name ∈ w.dropOrphans.pendingStatics, ∃ c, w.concept? name = some c ∧
      c.category = .static ∧ w.dropOrphans.registry.contains (.singleton name) = false :=
    fun name hname => (mem_pendingStatics (w := w.dropOrphans) fun _ _ hc => ho.names hc).mp hname
  obtain ⟨name, hname, c, hc, hrefused, hsame⟩ := exists_of_materializeAll_error
    (fun name hname => by
      obtain ⟨c, hc, -⟩ := hpending name hname
      exact Ontology.hasConcept_of_get? hc) h
  obtain ⟨c', hc', hstatic, hmissing⟩ := hpending name hname
  obtain rfl := Option.some.inj (hc.symm.trans hc')
  exact ⟨h, hontology, name, c, hc, hstatic, hsame.trans hmissing, hrefused⟩

end World

namespace KnowledgeBase

variable {kb kb' : KnowledgeBase} {α : Type} {e : Error}

/-! ## Steps that change the ontology -/

/-- If a change fails, either the ontology refuses it, or the registry cannot follow. -/
theorem cases_of_update_error {change : Ontology.Change α}
    (h : exec (update change) kb = (.error e, kb')) :
    (∃ o, exec change kb.ontology = (.error e, o) ∧
      kb'.toWorld = (World.syncStatics { kb.toWorld with ontology := o }).2) ∨
    ∃ a o, exec change kb.ontology = (.ok a, o) ∧
      World.syncStatics { kb.toWorld with ontology := o } = (.error e, kb'.toWorld) := by
  cases hchange : exec change kb.ontology with
  | mk outcome o =>
      cases hsync : World.syncStatics { kb.toWorld with ontology := o } with
      | mk synced w =>
          rw [exec_update hchange hsync] at h
          cases outcome with
          | error e' =>
              cases h
              exact .inl ⟨o, rfl, by rw [hsync]; rfl⟩
          | ok a =>
              cases synced with
              | error e' =>
                  cases h
                  exact .inr ⟨a, o, rfl, hsync⟩
              | ok u => cases h

/-! ## Steps that make instances -/

theorem eq_of_register_error {i : Instance} (h : exec (register i) kb = (.error e, kb')) :
    kb' = kb := by
  rw [exec_register] at h
  split at h
  · exact (congrArg Prod.snd h).symm
  · cases h

theorem eq_of_addInstance_error {i : Instance} (h : exec (addInstance i) kb = (.error e, kb')) :
    kb' = kb := by
  unfold addInstance at h
  rw [exec_bind_ok (exec_get kb)] at h
  cases hcheck : checkInstantiable kb.toWorld i.key.concept i.properties with
  | error e' =>
      rw [hcheck] at h
      exact (congrArg Prod.snd h).symm
  | ok c =>
      rw [hcheck, exec_bind_ok (exec_accept_ok c kb)] at h
      exact eq_of_register_error h

/-- The supply of identifiers may be one shorter. -/
theorem toWorld_of_createInstance_error {concept : String} {name? : Option String}
    {properties : Properties}
    (h : exec (createInstance concept name? properties) kb = (.error e, kb')) :
    kb'.toWorld = kb.toWorld := by
  unfold createInstance at h
  rw [exec_bind_ok (exec_get kb)] at h
  cases hcheck : checkInstantiable kb.toWorld concept properties with
  | error e' =>
      rw [hcheck] at h
      cases h
      rfl
  | ok c =>
      rw [hcheck, exec_bind_ok (exec_accept_ok c kb)] at h
      -- what is left to do once there is a name
      have hmake : ∀ {kb₁ : KnowledgeBase} {name : String}, exec (do
          let i ← accept (c.factory.create concept name (c.seed.override properties))
          register i
          return i.key : Step InstanceKey) kb₁ = (.error e, kb') → kb' = kb₁ := by
        intro kb₁ name h
        cases hi : c.factory.create concept name (c.seed.override properties) with
        | error e' =>
            rw [hi] at h
            exact (congrArg Prod.snd h).symm
        | ok i =>
            rw [hi, exec_bind_ok (exec_accept_ok i kb₁), exec_bind] at h
            cases hregister : exec (register i) kb₁ with
            | mk outcome kb₂ =>
                rw [hregister] at h
                cases outcome with
                | error e' =>
                    cases h
                    exact eq_of_register_error hregister
                | ok u => cases h
      cases name? with
      | some name =>
          rw [exec_bind_ok (exec_pure name kb)] at h
          rw [hmake h]
      | none =>
          rw [exec_bind_ok (exec_mint kb), exec_bind_ok (exec_pure _ _)] at h
          rw [hmake h]

/-! ## All of them -/

/-- A step that changes the ontology or the instances, by what it gives back. -/
inductive Mutation : Type → Type 1 where
  | edit {α : Type} (edit : Ontology.Edit α) : Mutation α
  | importBundle (name : String) : Mutation (List String)
  | setFactory (concept : String) (factory : Factory) : Mutation Unit
  | addInstance (i : Instance) : Mutation Unit
  | createInstance (concept : String) (name? : Option String) (properties : Properties) :
      Mutation InstanceKey

namespace Mutation

/-- What a mutation does. -/
def step {α : Type} : Mutation α → Step α
  | edit change => update change.change
  | importBundle name => update (Ontology.importBundle name)
  | setFactory concept factory => KnowledgeBase.setFactory concept factory
  | addInstance i => KnowledgeBase.addInstance i
  | createInstance concept name? properties =>
      KnowledgeBase.createInstance concept name? properties

/-- What a mutation that has failed with an error leaves of a world. -/
def Leaves {α : Type} (m : Mutation α) (w : World) (e : Error) (w' : World) : Prop :=
  match m with
  | edit change =>
      -- the ontology refuses the change and stays, or takes it and the registry cannot follow
      (exec change.change w.ontology = (.error e, w.ontology) ∧ w' = w.syncStatics.2 ∧
        (w.Furnished → w' = w)) ∨
      ∃ a o, exec change.change w.ontology = (.ok a, o) ∧ World.Stuck { w with ontology := o } e w'
  | importBundle name =>
      -- the concepts in front of a refused one stay
      (∃ before added o, before <+: Ontology.bundled name ∧
        exec (Ontology.importBundle name) w.ontology = (.error e, o) ∧
        exec (Ontology.addMissing before) w.ontology = (.ok added, o) ∧
        w' = (World.syncStatics { w with ontology := o }).2) ∨
      ∃ added o, exec (Ontology.importBundle name) w.ontology = (.ok added, o) ∧
        World.Stuck { w with ontology := o } e w'
  | setFactory concept _ => w.ontology.hasConcept concept = false → w' = w
  | addInstance _ | createInstance _ _ _ => w' = w

end Mutation

theorem leaves_edit (h : kb.Sound) {change : Ontology.Edit α}
    (hfailed : exec (update change.change) kb = (.error e, kb')) :
    (Mutation.edit change).Leaves kb.toWorld e kb'.toWorld := by
  have hkept := h.ontology.kept
  rcases cases_of_update_error hfailed with ⟨o, hrefused, hleft⟩ | ⟨a, o, hchange, hstuck⟩
  · obtain rfl := hkept.counted.atomic_edit change e o hrefused
    refine .inl ⟨hrefused, hleft, fun hfurnished => ?_⟩
    rw [hleft, h.housed.syncStatics_eq hfurnished]
  · have hlinked := hkept.linked_edit change
    rw [hchange] at hlinked
    exact .inr ⟨a, o, hchange, World.stuck_of_syncStatics hlinked hstuck⟩

theorem leaves_importBundle (h : kb.Sound) {name : String}
    (hfailed : exec (update (Ontology.importBundle name)) kb = (.error e, kb')) :
    (Mutation.importBundle name).Leaves kb.toWorld e kb'.toWorld := by
  rcases cases_of_update_error hfailed with ⟨o, hrefused, hleft⟩ | ⟨added, o, hchange, hstuck⟩
  · obtain ⟨before, added, hfront, hbefore⟩ := Ontology.exists_of_importBundle_error hrefused
    exact .inl ⟨before, added, o, hfront, hrefused, hbefore, hleft⟩
  · have hlinked := (Ontology.kept_importBundle h.ontology.kept name).linked
    rw [hchange] at hlinked
    exact .inr ⟨added, o, hchange, World.stuck_of_syncStatics hlinked hstuck⟩

/-- No factory is chosen for a concept that does not exist. -/
theorem leaves_setFactory {concept : String} {factory : Factory}
    (hfailed : exec (setFactory concept factory) kb = (.error e, kb')) :
    (Mutation.setFactory concept factory).Leaves kb.toWorld e kb'.toWorld := by
  intro hmissing
  have hnone : kb.concept? concept = none :=
    Option.not_isSome_iff_eq_none.mp (Bool.eq_false_iff.mp hmissing)
  rw [exec_setFactory, hnone] at hfailed
  cases hfailed
  rfl

/-- What every step that fails leaves behind. -/
theorem leaves_of_failed (h : kb.Reachable) (m : Mutation α)
    (hfailed : exec m.step kb = (.error e, kb')) : m.Leaves kb.toWorld e kb'.toWorld := by
  cases m with
  | edit change => exact leaves_edit h.sound hfailed
  | importBundle name => exact leaves_importBundle h.sound hfailed
  | setFactory concept factory => exact leaves_setFactory hfailed
  | addInstance i => exact congrArg toWorld (eq_of_addInstance_error hfailed)
  | createInstance concept name? properties => exact toWorld_of_createInstance_error hfailed

/-- A knowledge base with a concept that waits above and below the days of the week. -/
def fortnight : KnowledgeBase :=
  let waiting : Concept :=
    { name := "Fortnight"
      category := .abstract
      parents := KeySet.ofList ["Weekday"]
      children := KeySet.ofList ["Weekday"] }
  (exec (update (Ontology.addConcept waiting)) {}).2

/-- The days of the week would be above and below themselves, and dates come before them. -/
theorem leaves_of_failed_fortnight : ∃ e kb',
    exec (Mutation.importBundle "time").step fortnight = (.error e, kb') ∧
      (Mutation.importBundle "time").Leaves fortnight.toWorld e kb'.toWorld ∧
      kb'.ontology.hasConcept "Date" = true := by
  have hreachable : fortnight.Reachable :=
    .update (.empty _) _ fun o ho => ho.addConcept _
  have hrun : (exec (Mutation.importBundle "time").step fortnight).1.isOk = false ∧
      (exec (Mutation.importBundle "time").step fortnight).2.ontology.hasConcept "Date" = true := by
    decide +kernel
  generalize hstep : exec (Mutation.importBundle "time").step fortnight = run at hrun
  obtain ⟨outcome, kb'⟩ := run
  cases outcome with
  | error e => exact ⟨e, kb', rfl, leaves_of_failed hreachable _ hstep, hrun.2⟩
  | ok names => cases hrun.1

/-- A static concept whose instance would be a date, and whose name is none. -/
def someday : Concept := { name := "Someday", category := .static, chosenFactory := some .date }

/-- A concept stays when its instance cannot be made. -/
theorem addConcept_someday : ({} : KnowledgeBase).Reachable ∧ ∃ e kb',
    exec (Mutation.edit (.addConcept someday)).step {} = (.error e, kb') ∧
      kb'.ontology ≠ ({} : KnowledgeBase).ontology := by
  have hrun : (exec (Mutation.edit (.addConcept someday)).step {}).1.isOk = false ∧
      (exec (Mutation.edit (.addConcept someday)).step {}).2.ontology.hasConcept "Someday" =
        true := by
    decide +kernel
  generalize exec (Mutation.edit (.addConcept someday)).step {} = run at hrun
  obtain ⟨outcome, kb'⟩ := run
  cases outcome with
  | error e =>
      refine ⟨.empty _, e, kb', rfl, fun hsame => ?_⟩
      have hstays := hrun.2
      rw [hsame] at hstays
      cases hstays
  | ok u => cases hrun.1

end KnowledgeBase

end Credence
