import Credence.Proofs.Deduction.Trace
import Credence.Proofs.KnowledgeBase.Reachable
import Credence.Proofs.Snapshot.Numbers
import Credence.Proofs.Snapshot.Ontology

/-!
# Saving and loading

A reachable knowledge base in which every static concept has its instance comes back from the text
that it is saved as: what was not saved is computed anew, and a reachable knowledge base has nothing
else.  Only what is remembered of deductions and the supply of identifiers are not in the text.

There is one exception.  Nothing bounds how deep the lists in properties are nested when they are
saved, but the reader refuses a text in which lists and objects stand too deep.  So the text is
loaded exactly if every property fits (`World.Shallow`).
-/

namespace Credence

open Json

variable {depth : Nat}

/-! ## Registries -/

theorem Instance.gives (i : Instance) (hlegible : i.toJson.Legible)
    (hdepth : depth + 2 ≤ nestingLimit) :
    Gives (Instance.decoder (i.toJson.sketch depth)) (i.properties.FitAt (depth + 2)) i := by
  simp only [Instance.toJson, allNumbers_object, List.forall_mem_cons] at hlegible
  obtain ⟨-, hproperties, -⟩ := hlegible
  apply Gives.congr
  · apply gives_asRecord
    · apply gives_field rfl (by decide) (InstanceKey.gives i.key _)
      apply gives_field rfl (by decide) (Properties.gives i.properties hproperties _)
      exact gives_noFields
    · decide
  · constructor
    · exact fun h => h.2.2.1.2
    · exact fun h => ⟨by omega, by omega, ⟨by omega, h⟩, trivial⟩

/-- The properties of every instance fit under the nesting limit in a registry at a depth. -/
def Registry.FitsAt (r : Registry) (depth : Nat) : Prop :=
  ∀ shelf ∈ r.byConcept.entries, ∀ e ∈ shelf.2.entries, e.2.properties.FitAt (depth + 5)

instance (r : Registry) (depth : Nat) : Decidable (r.FitsAt depth) :=
  inferInstanceAs (Decidable (∀ shelf ∈ r.byConcept.entries, ∀ e ∈ shelf.2.entries, _))

theorem Registry.gives (r : Registry) (hlegible : r.toJson.Legible)
    (hdepth : depth + 5 ≤ nestingLimit) :
    Gives (Registry.decoder (r.toJson.sketch depth)) (r.FitsAt depth) r := by
  simp only [Registry.toJson, allNumbers_object, List.forall_mem_cons, allNumbers_table] at hlegible
  obtain ⟨hinstances, -⟩ := hlegible
  have hshelf : ∀ shelf ∈ r.byConcept.entries,
      Gives (Draft.asTable Instance.decoder ((shelf.2.toJson Instance.toJson).sketch (depth + 2)))
        (∀ e ∈ shelf.2.entries, e.2.properties.FitAt (depth + 5)) shelf.2 := by
    intro shelf hshelf
    have htable := gives_asTable (f := Instance.toJson) (b := fun i => i)
      (p := fun i => i.properties.FitAt (depth + 5)) (n := depth + 2) shelf.2 fun e he =>
        Instance.gives e.2 (hinstances shelf hshelf e he) (by omega)
    rw [Table.mapValues_self] at htable
    exact htable.congr (and_iff_right (by omega))
  have hshelves := gives_asTable (f := fun shelf => shelf.toJson Instance.toJson) (b := fun t => t)
    (p := fun t => ∀ e ∈ t.entries, e.2.properties.FitAt (depth + 5)) (n := depth + 1)
    r.byConcept hshelf
  rw [Table.mapValues_self] at hshelves
  apply Gives.congr
  · apply gives_asRecord
    · exact gives_field rfl (by decide) hshelves gives_noFields
    · decide
  · constructor
    · exact fun h => h.2.1.2
    · exact fun h => ⟨by omega, ⟨by omega, h⟩, trivial⟩

/-! ## Worlds -/

/-- What is saved of a world. -/
def World.saved (w : World) : SavedWorld := ⟨w.ontology.saved, w.registry⟩

/-- Every property of a concept or an instance fits under the nesting limit where it is saved. -/
def World.Shallow (w : World) : Prop := w.ontology.FitsAt 2 ∧ w.registry.FitsAt 2

instance (w : World) : Decidable w.Shallow := inferInstanceAs (Decidable (_ ∧ _))

theorem World.gives (w : World) (hw : w.ontology.Compiled) (hlegible : w.toJson.Legible) :
    Gives (SavedWorld.decoder (w.toJson.sketch 1)) w.Shallow w.saved := by
  simp only [World.toJson, allNumbers_object, List.forall_mem_cons] at hlegible
  obtain ⟨hontology, hregistry, -⟩ := hlegible
  apply Gives.congr
  · apply gives_asRecord
    · apply gives_field rfl (by decide) (Ontology.gives w.ontology hw hontology (by decide))
      apply gives_field rfl (by decide) (Registry.gives w.registry hregistry (by decide))
      exact gives_noFields
    · decide
  · constructor
    · exact fun h => ⟨h.2.1, h.2.2.1⟩
    · exact fun h => ⟨by decide, h.1, h.2, trivial⟩

namespace KnowledgeBase

/-- The text of a snapshot is read as what was saved. -/
theorem decode_save {w : World} (hw : w.ontology.Compiled) (hlegible : w.toJson.Legible) :
    decode SavedWorld.decoder (save w) = if w.Shallow then .ok w.saved else .error .unreadable := by
  unfold save
  rw [decode_page _ hlegible.readable]
  exact (w.gives hw hlegible).eq

/-- A snapshot of a world whose properties fit gives the world back. -/
theorem load_eq_of_shallow {w : World} (hontology : w.ontology.Kept) (hhoused : w.Housed)
    (hstatics : w.Furnished) (hlegible : w.toJson.Legible) (hshallow : w.Shallow)
    (supply : Supply) : load (save w) supply = .ok { toWorld := w, supply } := by
  have hrebuild := hhoused.rebuild_eq hstatics hontology.rebuild_bare
  unfold load
  rw [decode_save hontology.compiled hlegible, if_pos hshallow]
  dsimp only [World.saved]
  rw [w.ontology.identified_saved supply]
  dsimp only
  rw [hrebuild]

/-- A snapshot of a world with a property that does not fit is not read. -/
theorem load_eq_of_not_shallow {w : World} (hontology : w.ontology.Compiled)
    (hlegible : w.toJson.Legible) (hdeep : ¬ w.Shallow) (supply : Supply) :
    load (save w) supply = .error .noSnapshot := by
  unfold load
  rw [decode_save hontology hlegible, if_neg hdeep]

variable {kb kb' : KnowledgeBase}

/-- A verdict depends on the world only. -/
theorem infer_congr (hworld : kb.toWorld = kb'.toWorld) (domain : Subject) (relation : String)
    (target : Subject) (conditions : Bool) :
    (exec (infer domain relation target conditions) kb).1 =
      (exec (infer domain relation target conditions) kb').1 := by
  rw [infer_eq_trace, infer_eq_trace, hworld]

/-- The value of a condition depends on the world and on what is remembered. -/
theorem evaluate_congr (hworld : kb.toWorld = kb'.toWorld) (hmemo : kb.memo = kb'.memo) (e : Expr)
    (scenario : Scenario) :
    (exec (evaluate e scenario) kb).1 = (exec (evaluate e scenario) kb').1 := by
  unfold evaluate
  rw [exec_deduce, exec_deduce, hworld, hmemo]

/-- A reachable knowledge base is saved as a text that is loaded exactly if its properties fit, and
then everything but what is remembered comes back.  Every query is answered as before; the value of
a condition is what it is once all deductions are forgotten. -/
theorem load_save (hkb : kb.Reachable) (hstatics : kb.Furnished)
    (hfinite : kb.Finite)
    (hlibrary : ∀ x ∈ kb.toJson.numbers, Decimal.isFinite x = true → ReadsBack x)
    (supply : Supply) :
    let loaded : KnowledgeBase := { toWorld := kb.toWorld, supply }
    load (save kb.toWorld) supply = (if kb.Shallow then .ok loaded else .error .noSnapshot) ∧
      (∀ domain relation target conditions,
        (exec (infer domain relation target conditions) loaded).1 =
          (exec (infer domain relation target conditions) kb).1) ∧
      (∀ e scenario,
        (exec (evaluate e scenario) loaded).1 = (exec (evaluate e scenario) kb.reset).1) ∧
      ∀ text, loaded.resolve text = kb.resolve text := by
  have hsound := hkb.sound
  have hnumbers := hfinite.allNumbers_toJson hsound.ontology.kept.compiled
  -- from here on it does not matter which numbers are read back, only that these are
  have hlegible : kb.toJson.Legible := fun x hx => hlibrary x hx (hnumbers x hx)
  refine ⟨?_, infer_congr rfl, evaluate_congr rfl rfl, fun _ => rfl⟩
  by_cases hshallow : kb.Shallow
  · rw [if_pos hshallow]
    exact load_eq_of_shallow hsound.ontology.kept hsound.housed hstatics hlegible hshallow supply
  · rw [if_neg hshallow]
    exact load_eq_of_not_shallow hsound.ontology.kept.compiled hlegible hshallow supply

/-- A number in lists in each other. -/
def nest : Nat → Value
  | 0 => .number 0.1
  | n + 1 => .list [nest n]

/-- A static concept with a property of nested lists, which its instance has too, and a relation
with a rule that holds under a condition. -/
def nested (n : Nat) : KnowledgeBase :=
  let concept : Concept := {
    name := "A"
    category := .static
    ownProperties := Table.ofList [("p", nest n)] }
  let relation : Relation := {
    name := "holds"
    domains := [{ bases := KeySet.ofList ["A"] }]
    targets := [{ bases := KeySet.ofList ["A"] }]
    rules := [{
      id := .nil
      domains := { bases := KeySet.ofList [.concept "A"] }
      targets := { bases := KeySet.ofList [.concept "A"] }
      confidence := 0.9
      conditions := (Condition.compile "@=holds=%" 0.75).toOption.toList }] }
  let withConcept := (exec (update (Ontology.addConcept concept)) {}).2
  (exec (update (Ontology.addRelation relation)) withConcept).2

theorem reachable_nested (n : Nat) : (nested n).Reachable := by
  refine .update (.update (.empty _) _ fun _ ho => ho.addConcept _) _ fun _ ho => ho.addRelation ?_
  intro rule hrule c hc
  rw [List.mem_singleton.mp hrule] at hc
  cases hcompile : Condition.compile "@=holds=%" 0.75 with
  | error e =>
      rw [hcompile] at hc
      nomatch hc
  | ok d =>
      rw [hcompile] at hc
      rw [List.mem_singleton.mp hc]
      exact Condition.compile_self hcompile

/-- Sixty lists in each other are loaded again, and sixty-one are not. -/
theorem load_save_nested :
    load (save (nested 60).toWorld) ⟨0, 0⟩ = .ok { toWorld := (nested 60).toWorld } ∧
      load (save (nested 61).toWorld) ⟨0, 0⟩ = .error .noSnapshot := by
  have hlibrary : ∀ n, (nested n).toJson.numbers = [0.1, 0.9, 0.75, 0.1] →
      ∀ x ∈ (nested n).toJson.numbers, Decimal.isFinite x = true → ReadsBack x := by
    intro n hnumbers
    rw [hnumbers]
    decide +kernel
  obtain ⟨hloaded, -⟩ := load_save (reachable_nested 60) (by decide +kernel)
    ⟨by decide +kernel, by decide +kernel, by decide +kernel⟩
    (hlibrary 60 (by decide +kernel)) ⟨0, 0⟩
  obtain ⟨hrefused, -⟩ := load_save (reachable_nested 61) (by decide +kernel)
    ⟨by decide +kernel, by decide +kernel, by decide +kernel⟩
    (hlibrary 61 (by decide +kernel)) ⟨0, 0⟩
  rw [if_pos (by decide +kernel)] at hloaded
  rw [if_neg (by decide +kernel)] at hrefused
  exact ⟨hloaded, hrefused⟩

end KnowledgeBase

end Credence
