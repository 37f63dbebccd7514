import Credence.Deduction.Inference
import Credence.Proofs.World.Reading
import Mathlib.Data.List.Perm.Subperm

/-!
# How many questions there are

A world poses at most `depthBound` questions: one for each of its rules and each pair of its
subjects.  Questions that are under way at one time are different, so this also bounds how many can
be under way.

Rules are counted by their place in a relation and instances by the keys of the two tables that they
stand in, so that nothing is asked of the world but to be one.
-/

namespace Credence.World

variable (w : World)

/-- Every subject that a world may know. -/
def subjects : List Subject :=
  w.ontology.concepts.keys.map .concept ++
    w.registry.byConcept.entries.flatMap fun shelf =>
      shelf.2.keys.map fun name => .inst ⟨shelf.1, name⟩

/-- Every rule, by its relation and its place there. -/
def rulePlaces : List (String × Nat) :=
  w.ontology.relations.entries.flatMap fun entry =>
    (List.range entry.2.rules.length).map fun place => (entry.1, place)

/-- Every question about a rule and two subjects. -/
def questions : List Question :=
  w.rulePlaces.flatMap fun rule =>
    w.subjects.flatMap fun domain =>
      w.subjects.map fun target => ⟨rule.1, rule.2, domain, target⟩

/-! ## Their number -/

theorem length_subjects : w.subjects.length = w.subjectCount := by
  have hregistry : w.registry.size =
      (w.registry.byConcept.entries.map fun shelf => shelf.2.size).sum := by
    simp [Registry.size, Registry.toList, Table.values, List.length_flatMap, Function.comp_def,
      Table.size]
  simp [subjects, subjectCount, hregistry, List.length_flatMap]

theorem length_rulePlaces : w.rulePlaces.length = w.ontology.ruleCount := by
  simp [rulePlaces, Ontology.ruleCount, Table.values, List.length_flatMap, Function.comp_def]

theorem length_questions : w.questions.length = w.depthBound := by
  simp [questions, depthBound, List.length_flatMap, length_subjects, length_rulePlaces]

variable {w}

/-! ## Nothing else is asked -/

theorem mem_subjects {s : Subject} (hs : w.checkSubject s = .ok ()) : s ∈ w.subjects := by
  rw [subjects, List.mem_append]
  cases s with
  | concept name =>
      exact Or.inl (List.mem_map_of_mem (Table.mem_keys_iff.mpr (checkSubject_concept.mp hs)))
  | inst key =>
      obtain ⟨i, hi⟩ := Option.isSome_iff_exists.mp (checkSubject_inst.mp hs)
      obtain ⟨shelf, hshelf, hname⟩ := Option.bind_eq_some_iff.mp hi
      refine Or.inr (List.mem_flatMap.mpr ⟨_, Table.mem_entries_iff.mpr hshelf, ?_⟩)
      exact List.mem_map.mpr ⟨key.name, Table.mem_keys_iff.mpr (Table.contains_iff.mpr ⟨i, hname⟩),
        rfl⟩

theorem mem_questions {q : Question} {rule : Rule} (hq : w.Poses q rule) : q ∈ w.questions := by
  obtain ⟨rel, hrel, hrule⟩ := Option.bind_eq_some_iff.mp hq.rule
  obtain ⟨hplace, -⟩ := List.getElem?_eq_some_iff.mp hrule
  have hmem : (q.relation, q.rule) ∈ w.rulePlaces :=
    List.mem_flatMap.mpr ⟨_, Table.mem_entries_iff.mpr hrel,
      List.mem_map.mpr ⟨q.rule, List.mem_range.mpr hplace, rfl⟩⟩
  refine List.mem_flatMap.mpr ⟨_, hmem, ?_⟩
  refine List.mem_flatMap.mpr ⟨_, mem_subjects hq.domain.exists_, ?_⟩
  exact List.mem_map.mpr ⟨q.target, mem_subjects hq.target.exists_, rfl⟩

/-- Different questions of a world are no more than its rules times its pairs of subjects. -/
theorem length_le_depthBound {qs : List Question} (hdistinct : qs.Nodup)
    (hposed : ∀ q ∈ qs, ∃ rule, w.Poses q rule) : qs.length ≤ w.depthBound := by
  have hsub : qs ⊆ w.questions := by
    intro q hq
    obtain ⟨rule, hrule⟩ := hposed q hq
    exact mem_questions hrule
  have hle := (List.subperm_of_subset hdistinct hsub).length_le
  rwa [length_questions] at hle

end Credence.World
