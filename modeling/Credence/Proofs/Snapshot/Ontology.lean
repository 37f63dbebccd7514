import Credence.Proofs.Ontology.Kept
import Credence.Proofs.Ontology.RuleId
import Credence.Proofs.Snapshot.Value
import Credence.Snapshot.Ontology

/-!
# Saved ontologies

A saved ontology is read back as its declared parts, each rule with its identifier.  Everything but
the properties takes a bounded number of levels; where it stands in a snapshot it always fits, so
only the properties of the concepts can stand too deep.

A condition is read anew from its text and its salience, and gives itself since it says what its
text says.
-/

namespace Credence

open Json

variable {depth : Nat} {p : Prop}

/-! ## Choices, and conditions that hold -/

theorem Json.Gives.certain {α : Type} {r : Decoded α} {a : α} (h : Gives r p a) (hp : p) :
    Gives r True a := h.congr (iff_true_intro hp)

theorem Json.gives_asChoice {α : Type} {decoders : String → Option (Decoder α)}
    {decode : Decoder α} {name : String} {j : Json} {a : α} (hname : decoders name = some decode)
    (h : Gives (decode (j.sketch (depth + 1))) p a) :
    Gives (Draft.asChoice decoders ((Json.object [(name, j)]).sketch depth))
      (depth < nestingLimit ∧ p) a := by
  refine Gives.within ?_
  rw [hname]
  exact (h.bind (Gives.ok a)).congr (and_iff_left trivial)

theorem Json.gives_named {α : Type} {meaning : String → Option α} {s : String} {a : α}
    (h : meaning s = some a) (depth : Nat) :
    Gives (Draft.asNamed meaning ((Json.text s).sketch depth)) True a := gives_meant h depth

/-! ## Rules -/

theorem Subject.gives (s : Subject) (hdepth : depth + 2 ≤ nestingLimit) :
    Gives (Subject.decoder (s.toJson.sketch depth)) True s := by
  cases s with
  | concept name =>
      have hname := (gives_text name (depth + 1)).map Subject.concept
      exact (gives_asChoice rfl hname).certain ⟨by omega, trivial⟩
  | inst key =>
      have hkey := (InstanceKey.gives key (depth + 1)).map Subject.inst
      exact (gives_asChoice rfl hkey).certain ⟨by omega, by omega⟩

theorem Members.gives (m : Members) (hdepth : depth + 4 ≤ nestingLimit) :
    Gives (Members.decoder (m.toJson.sketch depth)) True m.declared := by
  have hbases := gives_asList (f := Subject.toJson) (b := fun s => s) (p := fun _ => True)
    (n := depth + 1) m.bases.toList fun s _ => Subject.gives s (by omega)
  have hdeclared : m.declared = { bases := KeySet.ofList m.bases.toList } := by
    rw [KeySet.ofList_toList]
    rfl
  rw [List.map_id'] at hbases
  rw [hdeclared]
  apply Gives.certain
  · apply gives_asRecord
    · exact gives_field rfl (by decide) hbases gives_noFields
    · decide
  · exact ⟨by omega, ⟨by omega, fun _ _ => trivial⟩, trivial⟩

theorem Condition.gives (c : Condition) (hc : compile c.logic c.salience = .ok c)
    (hlegible : c.toJson.Legible) (hdepth : depth < nestingLimit) :
    Gives (Condition.decoder (c.toJson.sketch depth)) True c := by
  simp only [Condition.toJson, allNumbers_object, List.forall_mem_cons,
    allNumbers_number] at hlegible
  obtain ⟨-, hsalience, -⟩ := hlegible
  unfold Condition.decoder
  -- text and salience are read, and the condition is made of them anew
  refine ((Gives.bind (p := True) (a := (c.logic, c.salience)) ?_ (.of_eq ?_)).certain
    ⟨trivial, trivial⟩)
  · apply Gives.certain
    · apply gives_asRecord
      · apply gives_field rfl (by decide) (gives_text _ _)
        apply gives_field rfl (by decide) (gives_number hsalience _)
        exact gives_noFields
      · decide
    · exact ⟨hdepth, trivial, trivial, trivial⟩
  · dsimp only
    rw [hc]
    rfl

/-- What is saved of a rule. -/
def Rule.saved (r : Rule) : SavedRule := ⟨some r.id, { r.declared with id := .nil }⟩

theorem Rule.gives (r : Rule) (hr : r.Compiled) (hlegible : r.toJson.Legible)
    (hdepth : depth + 5 ≤ nestingLimit) :
    Gives (SavedRule.decoder (r.toJson.sketch depth)) True r.saved := by
  simp only [Rule.toJson, allNumbers_object, List.forall_mem_cons, allNumbers_number,
    allNumbers_list, List.forall_mem_map] at hlegible
  obtain ⟨-, -, -, hconfidence, -, hconditions, -⟩ := hlegible
  have hlist := gives_asList (f := Condition.toJson) (b := fun c => c) (p := fun _ => True)
    (n := depth + 1) r.conditions fun c hc =>
      Condition.gives c (hr c hc) (hconditions c hc) (by omega)
  rw [List.map_id'] at hlist
  apply Gives.certain
  · apply gives_asRecord
    · apply gives_field rfl (by decide) (gives_meant r.id.read?_toText _)
      apply gives_field rfl (by decide) (Members.gives r.domains (by omega))
      apply gives_field rfl (by decide) (Members.gives r.targets (by omega))
      apply gives_field rfl (by decide) (gives_number hconfidence _)
      apply gives_field rfl (by decide) (gives_bool _ _)
      apply gives_field rfl (by decide) hlist
      exact gives_noFields
    · decide
  · exact ⟨by omega, trivial, trivial, trivial, trivial, trivial,
      ⟨by omega, fun _ _ => trivial⟩, trivial⟩

/-! ## Relations -/

theorem Group.gives (g : Group) (hdepth : depth + 2 ≤ nestingLimit) :
    Gives (Group.decoder (g.toJson.sketch depth)) True g.declared := by
  apply Gives.certain
  · apply gives_asRecord
    · exact gives_field rfl (by decide) (NameSet.gives g.bases _) gives_noFields
    · decide
  · exact ⟨by omega, by omega, trivial⟩

/-- What is saved of a relation. -/
def Relation.saved (r : Relation) : SavedRelation :=
  ⟨{ r.declared with rules := [] }, r.rules.map Rule.saved⟩

theorem Relation.gives (r : Relation) (hr : ∀ rule ∈ r.rules, rule.Compiled)
    (hlegible : r.toJson.Legible) (hdepth : depth + 7 ≤ nestingLimit) :
    Gives (SavedRelation.decoder (r.toJson.sketch depth)) True r.saved := by
  simp only [Relation.toJson, allNumbers_object, List.forall_mem_cons, allNumbers_list,
    List.forall_mem_map] at hlegible
  obtain ⟨-, -, -, -, hrules, -⟩ := hlegible
  have hgroups : ∀ gs : List Group, Gives
      (Draft.asList Group.decoder ((Json.list (gs.map Group.toJson)).sketch (depth + 1))) True
      (gs.map Group.declared) := fun gs =>
    (gives_asList (p := fun _ => True) gs fun g _ => Group.gives g (by omega)).certain
      ⟨by omega, fun _ _ => trivial⟩
  have hlist := gives_asList (f := Rule.toJson) (b := Rule.saved) (p := fun _ => True)
    (n := depth + 1) r.rules fun rule hrule =>
      Rule.gives rule (hr rule hrule) (hrules rule hrule) (by omega)
  apply Gives.certain
  · apply gives_asRecord
    · apply gives_field rfl (by decide) (gives_text _ _)
      apply gives_field rfl (by decide) (hgroups r.domains)
      apply gives_field rfl (by decide) (hgroups r.targets)
      apply gives_field rfl (by decide) (gives_bool _ _)
      apply gives_field rfl (by decide) hlist
      exact gives_noFields
    · decide
  · exact ⟨by omega, trivial, trivial, trivial, trivial, ⟨by omega, fun _ _ => trivial⟩, trivial⟩

/-! ## Concepts -/

/-- The fields of a concept in front of its factory. -/
theorem Concept.gives_fields (c : Concept) (hproperties : c.ownProperties.toJson.Legible)
    (hdepth : depth < nestingLimit) {rest : List (String × Json)} {outcome : List String × Concept}
    (hrest : Gives (Draft.fieldsByName fields (sketchFields rest depth)
      ["properties", "aliases", "children", "parents", "category", "name"]
      { c.declared with chosenFactory := none }) True outcome) :
    Gives (Draft.fieldsByName fields (sketchFields ([("name", .text c.name),
        ("category", .text c.category.name), ("parents", c.parents.toJson),
        ("children", c.children.toJson), ("aliases", c.ownAliases.toJson),
        ("properties", c.ownProperties.toJson)] ++ rest) depth) []
      { name := "", category := .abstract }) (c.ownProperties.FitAt (depth + 1)) outcome := by
  apply Gives.congr
  · apply gives_field rfl (by decide) (gives_text _ _)
    apply gives_field rfl (by decide) (gives_named (Category.ofName?_name c.category) _)
    apply gives_field rfl (by decide) (NameSet.gives c.parents _)
    apply gives_field rfl (by decide) (NameSet.gives c.children _)
    apply gives_field rfl (by decide) (NameSet.gives c.ownAliases _)
    apply gives_field rfl (by decide) (Properties.gives c.ownProperties hproperties _)
    exact hrest
  · simp [hdepth]

theorem Concept.gives (c : Concept) (hlegible : c.toJson.Legible)
    (hdepth : depth + 2 ≤ nestingLimit) :
    Gives (Concept.decoder (c.toJson.sketch depth)) (c.ownProperties.FitAt (depth + 2))
      c.declared := by
  simp only [Concept.toJson, allNumbers_object, List.forall_mem_append,
    List.forall_mem_cons] at hlegible
  obtain ⟨⟨-, -, -, -, -, hproperties, -⟩, -⟩ := hlegible
  obtain ⟨_, _, _, _, _, _, chosen, _, _⟩ := c
  apply Gives.congr
  · cases chosen with
    | none =>
        apply gives_asRecord
        · exact Concept.gives_fields _ hproperties (by omega) gives_noFields
        · decide
    | some f =>
        have hfactory := (gives_meant (Factory.ofName?_name f) (depth + 1)).map some
        apply gives_asRecord
        · apply Concept.gives_fields _ hproperties (by omega)
          apply Gives.certain
          · exact gives_field rfl (by decide) hfactory gives_noFields
          · exact ⟨trivial, trivial⟩
        · decide
  · exact and_iff_right (by omega)

/-! ## Ontologies -/

/-- What is saved of an ontology. -/
def Ontology.saved (o : Ontology) : SavedOntology :=
  ⟨o.declared, o.relations.mapValues fun _ r => r.saved⟩

/-- The properties of every concept fit under the nesting limit in an ontology at a depth. -/
def Ontology.FitsAt (o : Ontology) (depth : Nat) : Prop :=
  ∀ e ∈ o.concepts.entries, e.2.ownProperties.FitAt (depth + 4)

instance (o : Ontology) (depth : Nat) : Decidable (o.FitsAt depth) :=
  inferInstanceAs (Decidable (∀ e ∈ o.concepts.entries, _))

theorem Ontology.gives (o : Ontology) (ho : o.Compiled) (hlegible : o.toJson.Legible)
    (hdepth : depth + 9 ≤ nestingLimit) :
    Gives (SavedOntology.decoder (o.toJson.sketch depth)) (o.FitsAt depth) o.saved := by
  simp only [Ontology.toJson, allNumbers_object, List.forall_mem_cons, allNumbers_table] at hlegible
  obtain ⟨hconcepts, hrelations, -⟩ := hlegible
  have hconceptTable := gives_asTable (f := Concept.toJson) (b := Concept.declared)
    (p := fun c => c.ownProperties.FitAt (depth + 4)) (n := depth + 1) o.concepts fun e he =>
      Concept.gives e.2 (hconcepts e he) (by omega)
  have hrelationTable := gives_asTable (f := Relation.toJson) (b := Relation.saved)
    (p := fun _ => True) (n := depth + 1) o.relations fun e he =>
      Relation.gives e.2 (ho e.1 e.2 (Table.get?_eq_some_of_mem he)) (hrelations e he) (by omega)
  apply Gives.congr
  · apply gives_asRecord
    · apply gives_field rfl (by decide) hconceptTable
      apply gives_field rfl (by decide) hrelationTable
      exact gives_noFields
    · decide
  · constructor
    · exact fun h => h.2.1.2
    · exact fun h => ⟨by omega, ⟨by omega, h⟩, ⟨by omega, fun _ _ => trivial⟩, trivial⟩

/-! ## Identifiers -/

theorem Rule.identified_saved (r : Rule) (supply : Supply) :
    r.saved.identified.run supply = (r.declared, supply) := rfl

theorem run_mapM_eq_map {α β : Type} {f : α → StateM Supply β} {g : α → β} {supply : Supply}
    (l : List α) (h : ∀ a ∈ l, (f a).run supply = (g a, supply)) :
    (l.mapM f).run supply = (l.map g, supply) := by
  induction l with
  | nil => rfl
  | cons a l ih =>
      obtain ⟨ha, hl⟩ := List.forall_mem_cons.mp h
      rw [List.mapM_cons, StateT.run_bind, ha]
      show StateT.run (l.mapM f >>= fun bs => pure (g a :: bs)) supply = _
      rw [StateT.run_bind, ih hl]
      rfl

theorem Relation.identified_saved (r : Relation) (supply : Supply) :
    r.saved.identified.run supply = (r.declared, supply) := by
  have hrules : ((r.rules.map Rule.saved).mapM SavedRule.identified).run supply =
      (r.rules.map Rule.declared, supply) := by
    rw [List.mapM_map]
    exact run_mapM_eq_map r.rules fun rule _ => rule.identified_saved supply
  unfold SavedRelation.identified
  rw [StateT.run_bind]
  show (do let x ← ((r.rules.map Rule.saved).mapM SavedRule.identified).run supply; _) = _
  rw [hrules]
  rfl

/-- The declared parts of an ontology, with nothing computed. -/
def Ontology.bare (o : Ontology) : Ontology :=
  ⟨o.declared, o.relations.mapValues fun _ r => r.declared⟩

/-- No rule of a saved ontology needs a new identifier. -/
theorem Ontology.identified_saved (o : Ontology) (supply : Supply) :
    o.saved.identified.run supply = (o.bare, supply) := by
  unfold SavedOntology.identified saved Table.mapValues
  rw [StateT.run_bind, List.mapM_map,
    run_mapM_eq_map (g := fun e : String × Relation => (e.1, e.2.declared)) o.relations.entries]
  · show ((⟨o.declared, Table.ofList (o.relations.mapValues fun _ r => r.declared).entries⟩ :
      Ontology), supply) = _
    rw [Table.ofList_entries]
    rfl
  · intro e _
    rw [Function.comp_apply, StateT.run_bind, Relation.identified_saved]
    rfl

theorem Relation.declared_declared (r : Relation) : r.declared.declared = r.declared := by
  unfold Relation.declared
  simp only [List.map_map]
  rfl

/-- A kept ontology comes back from what is saved of it. -/
theorem Ontology.Kept.rebuild_bare {o : Ontology} (ho : o.Kept) : o.bare.rebuild = o := by
  refine ho.rebuild_eq (Table.ext_get? fun name => ?_) fun name => ?_
  · rw [get?_declared]
    show (o.declared.get? name).map Concept.declared = _
    rw [get?_declared, Option.map_map]
    rfl
  · show ((o.relations.mapValues fun _ r => r.declared).get? name).map Relation.declared = _
    rw [Table.get?_mapValues, Option.map_map]
    exact congrArg (fun f => (o.relations.get? name).map f) (funext Relation.declared_declared)

end Credence
