import Credence.Proofs.KnowledgeBase.Operations
import Credence.Proofs.World.Order

/-!
# The registry keeps in step with the ontology

Concepts come and go, may come back in another category, and get other factories; instances are
made, changed and learnt; and any of this may fail halfway.  After all of it the registry is
orderly.  It lacks the instance of a static concept only if some static concept had a factory that
refuses its name: such a factory leaves its concept without an instance, and when the registry is
brought in line, the concepts behind it too.
-/

namespace Credence.KnowledgeBase

variable {α : Type} {kb : KnowledgeBase}

/-- The registry is orderly, and no static concept lacks its instance. -/
structure Settled (kb : KnowledgeBase) : Prop where
  orderly : kb.toWorld.Orderly
  furnished : kb.Furnished

theorem Settled.of_toWorld_eq {kb' : KnowledgeBase} (h : kb.Settled)
    (hsame : kb'.toWorld = kb.toWorld) : kb'.Settled where
  orderly := by
    rw [hsame]
    exact h.orderly
  furnished := by
    rw [hsame]
    exact h.furnished

/-! ## The ontology changes -/

/-- An orderly registry follows the ontology. -/
theorem orderly_update {change : Ontology.Change α}
    (h : ∀ o : Ontology, o.Succeeds (exec change o).2) :
    Preserves (fun kb => kb.toWorld.Orderly) (update change) := by
  intro kb horderly
  rw [exec_update_snd]
  exact horderly.syncStatics (h kb.ontology)

/-- Where no factory refuses, it follows all the way. -/
theorem settled_syncStatics {o : Ontology} (horderly : kb.toWorld.Orderly)
    (h : kb.ontology.Succeeds o)
    (hfit : (World.syncStatics { kb.toWorld with ontology := o }).2.ontology.Fit) :
    ({ kb with toWorld := (World.syncStatics { kb.toWorld with ontology := o }).2 } :
      KnowledgeBase).reset.Settled := by
  rw [(World.syncStatics_keeps { kb.toWorld with ontology := o }).2] at hfit
  exact ⟨horderly.syncStatics h, horderly.furnished_syncStatics h hfit⟩

theorem settled_update {change : Ontology.Change α}
    (h : ∀ o : Ontology, o.Succeeds (exec change o).2) (horderly : kb.toWorld.Orderly)
    (hfit : (exec (update change) kb).2.ontology.Fit) : (exec (update change) kb).2.Settled := by
  rw [exec_update_snd] at hfit ⊢
  exact settled_syncStatics horderly (h kb.ontology) hfit

theorem succeeds_rebuild (o : Ontology) : o.Succeeds o.rebuild :=
  (Ontology.Grows.same (Ontology.roster_rebuild o)).succeeds

theorem succeeds_recompute (o : Ontology) :
    o.Succeeds (exec (modify Ontology.rebuild : Ontology.Change PUnit) o).2 :=
  succeeds_rebuild o

theorem orderly_recompute :
    Preserves (fun kb => kb.toWorld.Orderly) (update (modify Ontology.rebuild)) :=
  orderly_update succeeds_recompute

theorem settled_recompute (h : kb.toWorld.Orderly)
    (hfit : (exec (update (modify Ontology.rebuild)) kb).2.ontology.Fit) :
    (exec (update (modify Ontology.rebuild)) kb).2.Settled :=
  settled_update succeeds_recompute h hfit

theorem orderly_rebuild : Preserves (fun kb => kb.toWorld.Orderly) rebuild := by
  intro kb h
  rw [exec_rebuild]
  exact h.syncStatics (succeeds_rebuild kb.ontology)

theorem settled_rebuild (h : kb.toWorld.Orderly) (hfit : (exec rebuild kb).2.ontology.Fit) :
    (exec rebuild kb).2.Settled := by
  rw [exec_rebuild] at hfit ⊢
  exact settled_syncStatics h (succeeds_rebuild kb.ontology) hfit

/-! ## A factory is chosen -/

/-- Another factory changes neither the name nor the category of a concept. -/
theorem roster_refitted (o : Ontology) (concept : String) (factory : Factory) :
    (o.modifyConcept concept fun c => { c with chosenFactory := some factory }).roster = o.roster :=
  Ontology.roster_modifyConcept (fun _ => by rfl) o concept

theorem orderly_setFactory (concept : String) (factory : Factory) :
    Preserves (fun kb => kb.toWorld.Orderly) (setFactory concept factory) := by
  intro kb h
  rw [exec_setFactory]
  cases hc : kb.concept? concept with
  | none => exact h
  | some c =>
      have hrefitted := h.congr (roster_refitted kb.ontology concept factory)
      dsimp only
      split
      · rename_i hstatic
        have hbare := hrefitted.erase (.singleton concept)
        cases hi : factory.create concept concept c.seed with
        | error e => exact hbare
        | ok i =>
            have hkey : i.key = .singleton concept := Factory.key_of_create hi
            refine hbare.replace (e := (c.name, .static)) ?_ ?_
            · rw [hkey, ← hstatic]
              exact (roster_refitted kb.ontology concept factory).symm ▸
                Ontology.get?_roster_of_concept hc
            · rw [hkey]
              exact rfl
      · exact hrefitted

/-- A factory that takes the name of its concept replaces the instance. -/
theorem settled_setFactory {concept : String} {factory : Factory} (h : kb.Settled)
    (hfit : (exec (setFactory concept factory) kb).2.ontology.Fit) :
    (exec (setFactory concept factory) kb).2.Settled := by
  have horderly := orderly_setFactory concept factory kb h.orderly
  refine ⟨horderly, ?_⟩
  rw [exec_setFactory] at hfit horderly ⊢
  cases hc : kb.concept? concept with
  | none => exact h.furnished
  | some c =>
      rw [hc] at hfit horderly
      have hroster := roster_refitted kb.ontology concept factory
      dsimp only at hfit horderly ⊢
      split
      · rename_i hstatic
        rw [if_pos hstatic] at hfit horderly
        cases hi : factory.create concept concept c.seed with
        | error e =>
            -- then the new factory of the concept refuses its name
            rw [hi] at hfit horderly
            have hnew : (kb.ontology.modifyConcept concept fun c =>
                { c with chosenFactory := some factory }).concepts.get? concept =
                  some { c with chosenFactory := some factory } :=
              (Ontology.get?_modifyConcept _ _ _ _).trans
                ((if_pos rfl).trans (congrArg (Option.map _) hc))
            obtain ⟨i, hmade⟩ := horderly.fit hfit hnew hstatic
            exact absurd (hi.symm.trans hmade) fun h => nomatch h
        | ok i =>
            rw [hi] at horderly
            refine h.furnished.congr h.orderly horderly hroster fun key hkey => ?_
            have hmade : i.key = .singleton concept := Factory.key_of_create hi
            change ((kb.registry.erase (.singleton concept)).replace i).contains key = true
            rw [Registry.contains_replace, hmade, Registry.contains_erase, hkey]
            by_cases hself : key = .singleton concept <;> simp [hself]
      · rename_i hstatic
        rw [if_neg hstatic] at horderly
        exact h.furnished.congr h.orderly horderly hroster fun key hkey => hkey

/-! ## Instances change and are learnt -/

theorem orderly_modifyProperty (key : InstanceKey) (property : String)
    (f : Properties → Properties) :
    Preserves (fun kb => kb.toWorld.Orderly) (modifyProperty key property f) := by
  intro kb h
  rw [exec_modifyProperty]
  split
  · exact h
  · exact h.modify key fun _ => rfl

theorem settled_modifyProperty (key : InstanceKey) (property : String)
    (f : Properties → Properties) : Preserves Settled (modifyProperty key property f) := by
  intro kb h
  have horderly := orderly_modifyProperty key property f kb h.orderly
  refine ⟨horderly, ?_⟩
  rw [exec_modifyProperty] at horderly ⊢
  cases hi : kb.registry.get? key with
  | none => exact h.furnished
  | some i =>
      rw [hi] at horderly
      refine h.furnished.congr h.orderly horderly rfl fun key' hkey => ?_
      exact (Registry.contains_modify _ _ _ _).trans hkey

theorem teachable_orderly : Teachable fun kb => kb.toWorld.Orderly where
  replace h hc hdynamic :=
    h.replace (Ontology.get?_roster_of_concept hc) (by rw [hdynamic]; exact trivial)
  mint _ h := h
  rule relation rule _ := orderly_update fun o =>
    ((Ontology.keepsRoster_addRule relation rule).grows o).succeeds
  reset := preserves_modify fun _ h => h

/-- A rule leaves the roster alone, so the registry has nothing to follow. -/
theorem settled_addRule (relation : String) (rule : Rule) :
    Preserves Settled (update (Ontology.addRule relation rule)) := by
  intro kb h
  have hroster := Ontology.keepsRoster_addRule relation rule kb.ontology.roster kb.ontology rfl
  rw [exec_update_snd]
  generalize (exec (Ontology.addRule relation rule) kb.ontology).2 = o at hroster ⊢
  have horderly := h.orderly.congr hroster
  have hfurnished := h.furnished.congr h.orderly horderly hroster fun _ hkey => hkey
  rw [horderly.housed.syncStatics_eq hfurnished]
  exact ⟨horderly, hfurnished⟩

theorem teachable_settled : Teachable Settled where
  replace {kb i c} h hc hdynamic := by
    have horderly := teachable_orderly.replace h.orderly hc hdynamic
    refine ⟨horderly, h.furnished.congr h.orderly horderly rfl fun key hkey => ?_⟩
    exact (Registry.contains_replace _ _ _).trans (Bool.or_eq_true_iff.mpr (Or.inr hkey))
  mint _ h := ⟨h.orderly, h.furnished⟩
  rule relation rule _ := settled_addRule relation rule
  reset := preserves_modify fun _ h => ⟨h.orderly, h.furnished⟩

/-! ## All operations -/

/-- An operation keeps the registry orderly, whether it fails or not. -/
theorem orderly_step (op : Operation α) : Preserves (fun kb => kb.toWorld.Orderly) op.step := by
  cases op with
  | mutation m =>
      cases m with
      | edit change => exact orderly_update fun o => Ontology.succeeds_edit o change
      | importBundle name =>
          exact orderly_update fun o => (Ontology.grows_importBundle o name).succeeds
      | setFactory concept factory => exact orderly_setFactory concept factory
      | addInstance i => exact teachable_orderly.addInstance i
      | createInstance concept name? properties =>
          exact teachable_orderly.createInstance concept name? properties
  | recompute => exact orderly_recompute
  | rebuild => exact orderly_rebuild
  | modifyProperty key property f => exact orderly_modifyProperty key property f
  | mint => exact teachable_orderly.mint
  | ingest texts => exact teachable_orderly.ingest texts
  | infer domain relation target conditions =>
      intro kb h
      rw [Operation.step, toWorld_infer]
      exact h
  | inquire domain relation target conditions =>
      intro kb h
      rw [Operation.step, toWorld_deduce]
      exact h
  | evaluate e scenario =>
      intro kb h
      rw [Operation.step, KnowledgeBase.evaluate, toWorld_deduce]
      exact h
  | reset => exact teachable_orderly.reset

/-- An operation after which no factory refuses leaves no static concept without its instance. -/
theorem settled_step (op : Operation α) (kb : KnowledgeBase) (h : kb.Settled)
    (hfit : (exec op.step kb).2.ontology.Fit) : (exec op.step kb).2.Settled := by
  cases op with
  | mutation m =>
      cases m with
      | edit change =>
          exact settled_update (fun o => Ontology.succeeds_edit o change) h.orderly hfit
      | importBundle name =>
          exact settled_update (fun o => (Ontology.grows_importBundle o name).succeeds) h.orderly
            hfit
      | setFactory concept factory => exact settled_setFactory h hfit
      | addInstance i => exact teachable_settled.addInstance i kb h
      | createInstance concept name? properties =>
          exact teachable_settled.createInstance concept name? properties kb h
  | recompute => exact settled_recompute h.orderly hfit
  | rebuild => exact settled_rebuild h.orderly hfit
  | modifyProperty key property f => exact settled_modifyProperty key property f kb h
  | mint => exact teachable_settled.mint kb h
  | ingest texts => exact teachable_settled.ingest texts kb h
  | infer domain relation target conditions =>
      exact h.of_toWorld_eq (toWorld_infer domain relation target conditions kb)
  | inquire domain relation target conditions =>
      rw [Operation.step]
      exact h.of_toWorld_eq (toWorld_deduce _ kb)
  | evaluate e scenario =>
      rw [Operation.step, KnowledgeBase.evaluate]
      exact h.of_toWorld_eq (toWorld_deduce _ kb)
  | reset => exact teachable_settled.reset kb h

/-- After any run from an empty knowledge base the registry is orderly. -/
theorem orderly_after (supply : Supply) (ops : Agenda) :
    (after { supply } ops).toWorld.Orderly :=
  after_of_preserves (P := fun kb => kb.toWorld.Orderly) orderly_step ops World.orderly_empty

/-- After any run from an empty knowledge base, every instance stands under its own key and belongs
to an existing concept, which is not abstract; and if the concept is static, it is the instance of
its name.  If after each operation no static concept has a factory that refuses its name, every
static concept has its instance. -/
theorem registry_disciplined (supply : Supply) (ops : Agenda) :
    (∀ key i, (after { supply } ops).registry.get? key = some i →
      i.key = key ∧ ∃ c, (after { supply } ops).concept? key.concept = some c ∧
        c.category ≠ .abstract ∧ (c.category = .static → key = .singleton key.concept)) ∧
    (Along (fun op kb => (exec op.2.step kb).2.ontology.Fit) { supply } ops →
      ∀ name c, (after { supply } ops).concept? name = some c → c.category = .static →
        (after { supply } ops).registry.contains (.singleton name) = true) := by
  have horderly := orderly_after supply ops
  refine ⟨fun key i hi => ?_, fun hfit name c hc hstatic => ?_⟩
  · obtain ⟨hkey, e, he, hadmits⟩ := horderly.stored hi
    rw [Ontology.get?_roster] at he
    obtain ⟨c, hc, rfl⟩ := Option.map_eq_some_iff.mp he
    refine ⟨hkey, c, hc, fun habstract => ?_, fun hstatic => ?_⟩
    · rw [habstract] at hadmits
      exact hadmits
    · rw [hstatic] at hadmits
      exact hadmits
  · have hempty : ({ supply } : KnowledgeBase).Settled :=
      ⟨World.orderly_empty, fun c hc => absurd hc List.not_mem_nil⟩
    have hsettled : (after { supply } ops).Settled :=
      after_of_along (P := Settled) (fun op kb => settled_step op.2 kb) hfit hempty
    refine horderly.furnished_iff.mp hsettled.furnished name ?_
    rw [← hstatic, ← horderly.names hc]
    exact Ontology.get?_roster_of_concept (horderly.names hc ▸ hc)

/-- A concept is removed with its instances and comes back as a static one, and a bundle with days of
the week is imported. -/
def returning : Agenda := [
  ⟨_, .mutation (.edit (.addConcept { name := "Sun", category := .dynamic }))⟩,
  ⟨_, .mutation (.createInstance "Sun" (some "Sol") ∅)⟩,
  ⟨_, .mutation (.createInstance "Moon" none ∅)⟩,
  ⟨_, .mutation (.edit (.removeConcept "Sun"))⟩,
  ⟨_, .mutation (.edit (.addConcept { name := "Sun", category := .static }))⟩,
  ⟨_, .mutation (.importBundle "time")⟩,
  ⟨_, .mutation (.setFactory "Sunday" .default)⟩]

/-- Its one instance is there, and so is that of a day. -/
theorem registry_disciplined_returning :
    let kb := after { supply := ⟨0, 0⟩ } returning
    Along (fun op kb => (exec op.2.step kb).2.ontology.Fit) { supply := ⟨0, 0⟩ } returning ∧
      kb.registry.contains ⟨"Sun", "Sol"⟩ = false ∧
      kb.registry.contains (.singleton "Sun") = true ∧
      kb.registry.contains (.singleton "Sunday") = true := by
  intro kb
  have hfit : Along (fun op kb => (exec op.2.step kb).2.ontology.Fit) { supply := ⟨0, 0⟩ }
      returning := by
    decide +kernel
  have hstatic : ∀ name ∈ ["Sun", "Sunday"],
      ∃ c, kb.concept? name = some c ∧ c.category = .static := by
    have hcategory : ∀ name ∈ ["Sun", "Sunday"],
        (kb.concept? name).map Concept.category = some .static := by
      decide +kernel
    intro name hname
    exact Option.map_eq_some_iff.mp (hcategory name hname)
  have hmade := (registry_disciplined ⟨0, 0⟩ returning).2 hfit
  obtain ⟨sun, hsun, hsunStatic⟩ := hstatic "Sun" (by decide)
  obtain ⟨day, hday, hdayStatic⟩ := hstatic "Sunday" (by decide)
  exact ⟨hfit, by decide +kernel, hmade "Sun" sun hsun hsunStatic,
    hmade "Sunday" day hday hdayStatic⟩

end Credence.KnowledgeBase
