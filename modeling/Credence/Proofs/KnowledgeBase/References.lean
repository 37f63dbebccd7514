import Credence.Proofs.KnowledgeBase.Discipline
import Credence.Proofs.World.Reading

/-!
# What a text refers to

Names of concepts, written keys and bare names of instances are read by one function.  The name of
a concept comes first, and what it refers to is settled by the registry alone: the instance of that
very name, if there is one, or else the concept (`World.resolve_concept`).  For a static concept
that is the instance that it should be.  An abstract concept has no instances, so it stands for
itself.  But any name may be given to an instance of a dynamic concept, that of the concept too, and
from then on the name of the concept refers to that instance.

Whatever a text refers to exists, and stands for itself (`World.Orderly.knows_of_resolve`).
-/

namespace Credence

namespace World

variable {w : World} {name text : String} {s : Subject}

/-- The name of a concept refers to the instance of that name, or else to the concept. -/
theorem resolve_concept (hname : w.ontology.hasConcept name = true)
    (htrim : Text.trim name = name) :
    w.resolve name = .ok
      (if w.registry.contains (.singleton name) then .inst (.singleton name)
        else .concept name) := by
  unfold resolve
  rw [htrim, if_pos hname]
  rfl

/-- The name of a concept refers to the concept exactly if no instance of it has that name. -/
theorem resolve_eq_concept_iff (hname : w.ontology.hasConcept name = true)
    (htrim : Text.trim name = name) :
    w.resolve name = .ok (.concept name) ↔ w.registry.contains (.singleton name) = false := by
  rw [resolve_concept hname htrim]
  by_cases hmade : w.registry.contains (.singleton name) = true
  · simp [hmade]
  · simp [Bool.eq_false_iff.mpr hmade]

/-- An abstract concept has no instances at all. -/
theorem Orderly.contains_of_abstract (hw : w.Orderly) {c : Concept}
    (hc : w.concept? name = some c) (habstract : c.category = .abstract) (instanceName : String) :
    w.registry.contains ⟨name, instanceName⟩ = false := by
  refine Bool.eq_false_iff.mpr fun hmade => ?_
  obtain ⟨i, hi⟩ := Option.isSome_iff_exists.mp hmade
  obtain ⟨-, e, he, hadmits⟩ := hw.stored hi
  rw [Ontology.get?_roster_of_concept hc] at he
  cases he
  rw [habstract] at hadmits
  exact hadmits

/-- What a text refers to exists, and stands for itself. -/
theorem Orderly.knows_of_resolve (hw : w.Orderly) (h : w.resolve text = .ok s) : w.Knows s := by
  unfold resolve at h
  dsimp only at h
  split at h
  · -- the name of a concept
    rename_i hname
    cases h
    exact knows_canonical (checkSubject_concept.mpr hname)
  · split at h
    · -- a key in its written form
      rename_i key hparse
      split at h
      · rename_i hmade
        cases h
        exact ⟨checkSubject_inst.mpr hmade, rfl⟩
      · nomatch h
    · -- a bare name
      split at h
      · rename_i i hfirst
        cases h
        obtain ⟨key, hkey⟩ := Registry.mem_toList_iff.mp (List.mem_of_find?_eq_some hfirst)
        obtain ⟨rfl, -⟩ := hw.stored hkey
        exact ⟨checkSubject_inst.mpr (Option.isSome_iff_exists.mpr ⟨i, hkey⟩), rfl⟩
      · nomatch h

/-- A subject that exists is a concept of the ontology or a registered instance. -/
theorem Knows.exists (h : w.Knows s) :
    (∃ name, s = .concept name ∧ w.ontology.hasConcept name = true) ∨
      ∃ key, s = .inst key ∧ w.registry.contains key = true := by
  cases s with
  | concept name => exact Or.inl ⟨name, rfl, checkSubject_concept.mp h.exists_⟩
  | inst key => exact Or.inr ⟨key, rfl, checkSubject_inst.mp h.exists_⟩

end World

namespace KnowledgeBase

/-- After any run from an empty knowledge base, the trimmed name of a static concept that has its
instance refers to that, the name of an abstract concept to the concept, and the name of a dynamic
concept to the concept exactly if no instance of it bears the same name, and else to that instance.
Whatever a text refers to is a concept of the ontology or a registered instance. -/
theorem references_exist (supply : Supply) (ops : Agenda) :
    (∀ name c, (after { supply } ops).concept? name = some c → Text.trim name = name →
      (c.category = .static → (after { supply } ops).registry.contains (.singleton name) = true →
        (after { supply } ops).resolve name = .ok (.inst (.singleton name))) ∧
      (c.category = .abstract → (after { supply } ops).resolve name = .ok (.concept name)) ∧
      (c.category = .dynamic →
        ((after { supply } ops).resolve name = .ok (.concept name) ↔
          (after { supply } ops).registry.contains (.singleton name) = false) ∧
        ((after { supply } ops).resolve name = .ok (.inst (.singleton name)) ↔
          (after { supply } ops).registry.contains (.singleton name) = true))) ∧
    ∀ text s, (after { supply } ops).resolve text = .ok s →
      (∃ name, s = .concept name ∧ (after { supply } ops).ontology.hasConcept name = true) ∨
        ∃ key, s = .inst key ∧ (after { supply } ops).registry.contains key = true := by
  have horderly := orderly_after supply ops
  refine ⟨fun name c hc htrim => ?_, fun text s h => (horderly.knows_of_resolve h).exists⟩
  have hname : (after { supply } ops).ontology.hasConcept name = true :=
    Ontology.hasConcept_of_get? hc
  have hresolve := World.resolve_concept hname htrim
  refine ⟨fun _ hmade => ?_, fun habstract => ?_, fun _ => ⟨?_, ?_⟩⟩
  · rw [hresolve, if_pos hmade]
  · rw [World.resolve_eq_concept_iff hname htrim]
    exact horderly.contains_of_abstract hc habstract name
  · exact World.resolve_eq_concept_iff hname htrim
  · rw [hresolve]
    by_cases hmade : (after { supply } ops).registry.contains (.singleton name) = true
    · simp [hmade]
    · simp [Bool.eq_false_iff.mpr hmade]

/-- Two concepts have an instance of their own name, a third has one of another name, and the
fourth is abstract. -/
def namesakes : Agenda := [
  ⟨_, .mutation (.edit (.addConcept { name := "Being", category := .abstract }))⟩,
  ⟨_, .mutation (.edit (.addConcept { name := "Sun", category := .static }))⟩,
  ⟨_, .mutation (.edit (.addConcept { name := "Person", category := .dynamic }))⟩,
  ⟨_, .mutation (.edit (.addConcept { name := "Town", category := .dynamic }))⟩,
  ⟨_, .mutation (.createInstance "Person" (some "Person") ∅)⟩,
  ⟨_, .mutation (.createInstance "Town" (some "Being") ∅)⟩]

/-- The name of a person refers to that person although it is the name of the concept. -/
theorem references_exist_namesakes :
    let kb := after { supply := ⟨0, 0⟩ } namesakes
    kb.resolve "Being" = .ok (.concept "Being") ∧
      kb.resolve "Sun" = .ok (.inst (.singleton "Sun")) ∧
      kb.resolve "Town" = .ok (.concept "Town") ∧
      kb.resolve "Person" = .ok (.inst (.singleton "Person")) := by
  intro kb
  have hcategory : ∀ entry ∈ [("Being", Category.abstract), ("Sun", .static), ("Town", .dynamic),
      ("Person", .dynamic)], (kb.concept? entry.1).map Concept.category = some entry.2 := by
    decide +kernel
  have hcase := (references_exist ⟨0, 0⟩ namesakes).1
  obtain ⟨being, hbeing, habstract⟩ :=
    Option.map_eq_some_iff.mp (hcategory ("Being", .abstract) (by simp))
  obtain ⟨sun, hsun, hstatic⟩ := Option.map_eq_some_iff.mp (hcategory ("Sun", .static) (by simp))
  obtain ⟨town, htown, htownDynamic⟩ :=
    Option.map_eq_some_iff.mp (hcategory ("Town", .dynamic) (by simp))
  obtain ⟨person, hperson, hpersonDynamic⟩ :=
    Option.map_eq_some_iff.mp (hcategory ("Person", .dynamic) (by simp))
  exact ⟨(hcase "Being" being hbeing (by decide)).2.1 habstract,
    (hcase "Sun" sun hsun (by decide)).1 hstatic (by decide +kernel),
    ((hcase "Town" town htown (by decide)).2.2 htownDynamic).1.mpr (by decide +kernel),
    ((hcase "Person" person hperson (by decide)).2.2 hpersonDynamic).2.mpr (by decide +kernel)⟩

end KnowledgeBase

end Credence
