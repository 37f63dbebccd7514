import Credence.Proofs.Ontology.Arrival
import Credence.Proofs.Ontology.Refusal

/-!
# Which concepts there are

The *roster* of an ontology has the name and the category of each concept under its name.  A concept
keeps both for as long as it exists, so a change can only strike an entry off the roster or add one.
Most changes leave it alone; a new concept stands under its own name; and no single change removes a
concept and adds another one of that name.

`Ontology.Succeeds` says what instances have to know about a change.
-/

namespace Credence.Ontology

variable {o o' o'' : Ontology} {name x : String} {c : Concept} {α : Type}

/-- The name and the category of each concept. -/
def roster (o : Ontology) : Table String (String × Category) :=
  o.concepts.mapValues fun _ c => (c.name, c.category)

theorem get?_roster (o : Ontology) (name : String) :
    o.roster.get? name = (o.concepts.get? name).map fun c => (c.name, c.category) :=
  Table.get?_mapValues _ _ _

theorem get?_roster_of_concept (hc : o.concepts.get? name = some c) :
    o.roster.get? name = some (c.name, c.category) := by
  rw [get?_roster, hc]
  rfl

theorem hasConcept_eq_roster (o : Ontology) (name : String) :
    o.hasConcept name = (o.roster.get? name).isSome := by
  rw [get?_roster, Option.isSome_map]
  rfl

/-- Every concept stands under its own name. -/
def Rostered (o : Ontology) : Prop := ∀ x e, o.roster.get? x = some e → e.1 = x

/-! ## What leaves the roster alone -/

theorem roster_eq_of_declared (h : o.declared = o'.declared) : o.roster = o'.roster := by
  have hroster : ∀ o : Ontology,
      o.roster = o.declared.mapValues fun _ c => (c.name, c.category) := by
    intro o
    refine Table.ext_get? fun n => ?_
    rw [get?_roster, Table.get?_mapValues, get?_declared, Option.map_map]
    rfl
  rw [hroster, h, ← hroster]

@[simp] theorem roster_recount (o : Ontology) : o.recount.roster = o.roster :=
  roster_eq_of_declared (declared_recount o)

@[simp] theorem roster_refresh (o : Ontology) : o.refresh.roster = o.roster :=
  roster_eq_of_declared (declared_refresh o)

@[simp] theorem roster_propagate (o : Ontology) (name : String) :
    (o.propagate name).roster = o.roster := by
  rw [propagate, roster_refresh]
  exact roster_eq_of_declared (cascade_keeps declared_inherit o name)

@[simp] theorem roster_rebuild (o : Ontology) : o.rebuild.roster = o.roster := by
  rw [rebuild, roster_refresh]
  exact roster_eq_of_declared (foldl_cascade_keeps declared_inherit _ o)

theorem roster_modifyConcept {f : Concept → Concept}
    (hf : ∀ c, ((f c).name, (f c).category) = (c.name, c.category)) (o : Ontology) (name : String) :
    (o.modifyConcept name f).roster = o.roster := by
  refine Table.ext_get? fun n => ?_
  rw [get?_roster, get?_roster, get?_modifyConcept]
  by_cases hn : n = name
  · rw [if_pos hn, Option.map_map]
    simp only [Function.comp_def, hf]
  · rw [if_neg hn]

@[simp] theorem roster_rewired (o : Ontology) (children parents : String → NameSet → NameSet) :
    (o.rewired children parents).roster = o.roster := by
  refine Table.ext_get? fun n => ?_
  rw [get?_roster, get?_roster, get?_rewired, Option.map_map]
  rfl

/-- A change that leaves the roster alone, whether it is refused or not. -/
def KeepsRoster (change : Change α) : Prop :=
  ∀ t, Preserves (fun o => o.roster = t) change

section Keeping

variable {P : Ontology → Prop}

theorem preserves_theConcept (name : String) : Preserves P (theConcept name) := by
  refine preserves_get_bind fun o _ => ?_
  split
  · exact preserves_pure _
  · exact preserves_throw _

theorem preserves_theRelation (name : String) : Preserves P (theRelation name) := by
  refine preserves_get_bind fun o _ => ?_
  split
  · exact preserves_pure _
  · exact preserves_throw _

/-- A refusal comes before everything else. -/
theorem preserves_violates_bind (v : Violation) (next : PUnit → Change α) :
    Preserves P (violates v >>= next) :=
  fun _ h => h

end Keeping

theorem keepsRoster_addParent (child parent : String) : KeepsRoster (addParent child parent) := by
  refine fun t => preserves_bind (preserves_theConcept child) fun c =>
    preserves_get_bind fun o ho => ?_
  have hjoined : (o.joined child parent).roster = t := by
    rw [joined_eq, roster_rewired, ho]
  dsimp only
  split
  · exact preserves_violates_bind _ _
  · refine preserves_bind (preserves_set ?_) fun _ => preserves_pure _
    split
    · exact (roster_propagate _ _).trans hjoined
    · exact hjoined

theorem keepsRoster_removeParent (child parent : String) :
    KeepsRoster (removeParent child parent) := by
  refine fun t => preserves_bind (preserves_theConcept child) fun c =>
    preserves_get_bind fun o ho => preserves_bind (preserves_set ?_) fun _ => preserves_pure _
  have hparted : (o.parted child parent).roster = t := by
    rw [parted_eq, roster_rewired, ho]
  split
  · exact (roster_propagate _ _).trans hparted
  · exact hparted

/-- The common end of the changes of what a concept declares besides its edges. -/
theorem keepsRoster_modifyConcept {f : Concept → Concept}
    (hf : ∀ c, ((f c).name, (f c).category) = (c.name, c.category)) (name : String) :
    KeepsRoster (modify fun o => (o.modifyConcept name f).propagate name : Change PUnit) :=
  fun t => preserves_modify fun o ho => by rw [roster_propagate, roster_modifyConcept hf, ho]

theorem keepsRoster_addAlias (concept other : String) : KeepsRoster (addAlias concept other) := by
  refine fun t => preserves_bind (preserves_theConcept concept) fun c => ?_
  dsimp only
  split
  · exact preserves_bind (keepsRoster_modifyConcept (fun _ => by rfl) concept t) fun _ =>
      preserves_pure _
  · exact preserves_pure _

theorem keepsRoster_removeAlias (concept other : String) :
    KeepsRoster (removeAlias concept other) := by
  refine fun t => preserves_bind (preserves_theConcept concept) fun c => ?_
  dsimp only
  split
  · exact preserves_bind (keepsRoster_modifyConcept (fun _ => by rfl) concept t) fun _ =>
      preserves_pure _
  · exact preserves_pure _

theorem keepsRoster_setProperty (concept key : String) (value : Value) :
    KeepsRoster (setProperty concept key value) := by
  intro t
  unfold setProperty
  dsimp only
  split
  · exact preserves_violates_bind _ _
  · exact preserves_bind (preserves_theConcept concept) fun c =>
      keepsRoster_modifyConcept (fun _ => by rfl) concept t

theorem keepsRoster_removeProperty (concept key : String) :
    KeepsRoster (removeProperty concept key) := by
  refine fun t => preserves_bind (preserves_theConcept concept) fun c => ?_
  dsimp only
  split
  · exact preserves_bind (keepsRoster_modifyConcept (fun _ => by rfl) concept t) fun _ =>
      preserves_pure _
  · exact preserves_pure _

theorem keepsRoster_setFactory (concept : String) (factory : Factory) :
    KeepsRoster (setFactory concept factory) := fun _ =>
  preserves_bind (preserves_theConcept concept) fun _ =>
    preserves_modify fun _ ho => (roster_modifyConcept (fun _ => by rfl) _ concept).trans ho

/-! ## Relations and rules -/

/-- Relations do not matter to the roster. -/
theorem roster_recount_relations (o : Ontology) (relations : Table String Relation) :
    (recount { o with relations }).roster = o.roster :=
  roster_recount _

theorem keepsRoster_addRelation (r : Relation) : KeepsRoster (addRelation r) := by
  refine fun t => preserves_get_bind fun o ho => ?_
  dsimp only
  split
  · exact preserves_violates_bind _ _
  · intro o' ho'
    refine exec_bind_of_check (P := fun o => o.roster = t) (exec_forM_ofExcept _ _ o') ho'
      fun _ _ => ?_
    exact (roster_recount_relations o _).trans ho

theorem keepsRoster_removeRelation (name : String) : KeepsRoster (removeRelation name) := fun _ =>
  preserves_bind (preserves_theRelation name) fun _ =>
    preserves_bind (preserves_modify fun o ho => (roster_recount_relations o _).trans ho) fun _ =>
      preserves_pure _

theorem keepsRoster_addRule (relation : String) (rule : Rule) :
    KeepsRoster (addRule relation rule) := fun _ =>
  preserves_bind (preserves_theRelation relation) fun _ => preserves_get_bind fun o ho =>
    preserves_bind (preserves_ofExcept _) fun _ =>
      preserves_set ((roster_recount_relations o _).trans ho)

theorem keepsRoster_removeRule (relation : String) (id : RuleId) :
    KeepsRoster (removeRule relation id) := by
  refine fun t => preserves_bind (preserves_theRelation relation) fun r => ?_
  split
  · exact preserves_throw _
  · exact preserves_bind (preserves_modify fun o ho => (roster_recount_relations o _).trans ho)
      fun _ => preserves_pure _

theorem keepsRoster_modifyRule (relation : String) (id : RuleId)
    (f : Rule → Except Error (α × Rule)) : KeepsRoster (modifyRule relation id f) := by
  refine fun t => preserves_bind (preserves_theRelation relation) fun r => ?_
  dsimp only
  split
  · exact preserves_bind (preserves_modify fun o ho => (roster_recount_relations o _).trans ho)
      fun _ => preserves_pure _
  · exact preserves_bind (preserves_modify fun o ho => (roster_recount o).trans ho) fun _ =>
      preserves_throw _

theorem keepsRoster_addRuleMember (relation : String) (id : RuleId) (side : Side)
    (member : Subject) : KeepsRoster (addRuleMember relation id side member) := fun t =>
  preserves_bind (preserves_theRelation relation) fun _ => preserves_get_bind fun _ _ =>
    preserves_bind (preserves_ofExcept _) fun _ => keepsRoster_modifyRule relation id _ t

theorem keepsRoster_removeRuleMember (relation : String) (id : RuleId) (side : Side)
    (member : Subject) : KeepsRoster (removeRuleMember relation id side member) := by
  refine fun t => preserves_get_bind fun o _ => ?_
  dsimp only
  split
  · exact preserves_bind (preserves_throw _) fun _ => keepsRoster_modifyRule relation id _ t
  · exact keepsRoster_modifyRule relation id _ t

/-! ## One entry more, one entry less -/

/-- The entries stay, and there may be new ones, which stand under their own names. -/
def Grows (o o' : Ontology) : Prop :=
  ∀ x, o'.roster.get? x = o.roster.get? x ∨
    o.roster.get? x = none ∧ ∃ category, o'.roster.get? x = some (x, category)

/-- Each entry was there before, or is new under its own name. -/
def Succeeds (o o' : Ontology) : Prop :=
  ∀ x e, o'.roster.get? x = some e →
    o.roster.get? x = some e ∨ o.roster.get? x = none ∧ e.1 = x

theorem Grows.same (h : o'.roster = o.roster) : Grows o o' := fun x => Or.inl (by rw [h])

theorem Grows.trans (h : Grows o o') (h' : Grows o' o'') : Grows o o'' := by
  intro x
  rcases h x with hx | ⟨hnone, category, hx⟩
  · rcases h' x with hx' | ⟨hnone', category, hx'⟩
    · exact Or.inl (hx'.trans hx)
    · exact Or.inr ⟨hx.symm.trans hnone', category, hx'⟩
  · rcases h' x with hx' | ⟨hnone', -⟩
    · exact Or.inr ⟨hnone, category, hx'.trans hx⟩
    · rw [hx] at hnone'
      nomatch hnone'

theorem Grows.succeeds (h : Grows o o') : Succeeds o o' := by
  intro x e he
  rcases h x with hx | ⟨hnone, category, hx⟩
  · exact Or.inl (hx.symm.trans he)
  · rw [hx] at he
    cases he
    exact Or.inr ⟨hnone, rfl⟩

theorem KeepsRoster.grows {change : Change α} (h : KeepsRoster change) (o : Ontology) :
    Grows o (exec change o).2 :=
  .same (h o.roster o rfl)

/-- Concepts under their own names stay there. -/
theorem Rostered.succeeds (ho : o.Rostered) (h : Succeeds o o') : o'.Rostered := by
  intro x e he
  rcases h x e he with hold | ⟨-, hnew⟩
  · exact ho x e hold
  · exact hnew

theorem grows_addConcept (o : Ontology) (c : Concept) : Grows o (exec (addConcept c) o).2 := by
  cases hrun : exec (addConcept c) o with
  | mk outcome o' =>
      cases outcome with
      | error e =>
          rw [atomic_addConcept o c e o' hrun]
          exact .same rfl
      | ok u =>
          obtain ⟨hadmits, rfl⟩ := exec_addConcept_eq_ok_iff.mp hrun
          intro x
          rw [admitted, roster_propagate, get?_roster, get?_added]
          by_cases hx : x = c.name
          · have hnone : o.roster.get? x = none := by
              rw [get?_roster, hx, get?_of_not_hasConcept hadmits.new, Option.map_none]
            refine Or.inr ⟨hnone, c.category, ?_⟩
            rw [if_pos (c := x = (o.fused c).name) hx, hx]
            rfl
          · rw [if_neg (c := x = (o.fused c).name) hx, ← get?_roster, link_eq, roster_rewired]
            exact Or.inl rfl

theorem grows_importBundle (o : Ontology) (name : String) :
    Grows o (exec (importBundle name) o).2 :=
  preserves_importBundle (P := Grows o) (fun c o' h => h.trans (grows_addConcept o' c)) name o
    (.same rfl)

theorem succeeds_removeConcept (o : Ontology) (name : String) :
    Succeeds o (exec (removeConcept name) o).2 := by
  unfold removeConcept
  rw [exec_bind, exec_theConcept]
  cases hc : o.concepts.get? name with
  | none => exact (Grows.same rfl).succeeds
  | some c =>
      dsimp only
      rw [exec_bind_ok (exec_get o)]
      split
      · exact (Grows.same rfl).succeeds
      · intro x e he
        have hroster : (c.children.toList.foldl cascade (o.removed name c)).refresh.roster =
            (o.removed name c).roster := by
          rw [roster_refresh]
          exact roster_eq_of_declared (foldl_cascade_keeps declared_inherit _ _)
        change (c.children.toList.foldl cascade (o.removed name c)).refresh.roster.get? x = _ at he
        rw [hroster, get?_roster, get?_removed] at he
        by_cases hx : x = name
        · rw [if_pos hx] at he
          nomatch he
        · rw [if_neg hx, Option.map_map] at he
          refine Or.inl ?_
          rw [get?_roster]
          exact he

/-- What an edit makes of the roster, whether it is refused or not. -/
theorem succeeds_edit (o : Ontology) (edit : Edit α) : Succeeds o (exec edit.change o).2 := by
  cases edit with
  | addConcept c => exact (grows_addConcept o c).succeeds
  | removeConcept name => exact succeeds_removeConcept o name
  | addParent child parent => exact ((keepsRoster_addParent child parent).grows o).succeeds
  | removeParent child parent => exact ((keepsRoster_removeParent child parent).grows o).succeeds
  | addAlias concept other => exact ((keepsRoster_addAlias concept other).grows o).succeeds
  | removeAlias concept other => exact ((keepsRoster_removeAlias concept other).grows o).succeeds
  | setProperty concept key value =>
      exact ((keepsRoster_setProperty concept key value).grows o).succeeds
  | removeProperty concept key => exact ((keepsRoster_removeProperty concept key).grows o).succeeds
  | addRelation r => exact ((keepsRoster_addRelation r).grows o).succeeds
  | removeRelation name => exact ((keepsRoster_removeRelation name).grows o).succeeds
  | addRule relation rule => exact ((keepsRoster_addRule relation rule).grows o).succeeds
  | removeRule relation id => exact ((keepsRoster_removeRule relation id).grows o).succeeds
  | addCondition relation id c => exact ((keepsRoster_modifyRule relation id _).grows o).succeeds
  | removeCondition relation id index =>
      exact ((keepsRoster_modifyRule relation id _).grows o).succeeds
  | addRuleMember relation id side member =>
      exact ((keepsRoster_addRuleMember relation id side member).grows o).succeeds
  | removeRuleMember relation id side member =>
      exact ((keepsRoster_removeRuleMember relation id side member).grows o).succeeds

end Credence.Ontology
