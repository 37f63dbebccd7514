import Credence.Proofs.Collection.Table
import Credence.Proofs.Ontology.Reachable
import Credence.Proofs.World.Registry
import Credence.World.Statics

/-!
# Instances live in existing concepts

A world is *housed* if all its instances are instances of existing concepts, and *furnished* if
every static concept has its instance.  Bringing the registry in line with the ontology makes every
world housed; it furnishes a world unless a factory refuses the name of its concept, and leaves a
housed and furnished world as it is.
-/

namespace Credence

theorem Factory.key_of_create {f : Factory} {concept name : String} {properties : Properties}
    {i : Instance} (h : f.create concept name properties = .ok i) : i.key = ⟨concept, name⟩ := by
  cases f with
  | default =>
      cases h
      rfl
  | date =>
      unfold Factory.create at h
      dsimp only at h
      split at h
      · cases h
        rfl
      · nomatch h
  | email =>
      unfold Factory.create at h
      dsimp only at h
      split at h
      · cases h
        rfl
      · nomatch h

namespace World

variable {w w' : World} {name : String} {e : Error}

/-- All instances are instances of existing concepts. -/
def Housed (w : World) : Prop :=
  ∀ concept, w.registry.byConcept.contains concept = true → w.ontology.hasConcept concept = true

theorem housed_dropOrphans (w : World) : w.dropOrphans.Housed := by
  intro concept h
  obtain ⟨shelf, hshelf⟩ := Table.contains_iff.mp h
  have hget : w.dropOrphans.registry.byConcept.get? concept =
      (w.registry.byConcept.get? concept).filter fun _ => w.ontology.hasConcept concept :=
    Table.get?_filter _ _ _
  rw [hget] at hshelf
  exact (Option.filter_eq_some_iff.mp hshelf).2

theorem Housed.replace (hw : w.Housed) {i : Instance}
    (hi : w.ontology.hasConcept i.key.concept = true) :
    ({ w with registry := w.registry.replace i } : World).Housed := by
  intro concept h
  have hinsert : (decide (concept = i.key.concept) || w.registry.byConcept.contains concept) =
      true := (Table.contains_insert _ _ _ _).symm.trans h
  rcases Bool.or_eq_true _ _ ▸ hinsert with heq | hold
  · rw [of_decide_eq_true heq]
    exact hi
  · exact hw concept hold

theorem Housed.erase (hw : w.Housed) (key : InstanceKey) :
    ({ w with registry := w.registry.erase key } : World).Housed := by
  intro concept h
  refine hw concept ?_
  change (w.registry.erase key).byConcept.contains concept = true at h
  unfold Registry.erase at h
  cases hshelf : w.registry.byConcept.get? key.concept with
  | none =>
      rw [hshelf] at h
      exact h
  | some shelf =>
      rw [hshelf] at h
      dsimp only at h
      split at h
      · rw [Table.contains_erase, Bool.and_eq_true] at h
        exact h.2
      · rw [Table.contains_insert, Bool.or_eq_true, decide_eq_true_eq] at h
        rcases h with rfl | hold
        · exact Table.contains_iff.mpr ⟨shelf, hshelf⟩
        · exact hold

theorem Housed.modify (hw : w.Housed) (key : InstanceKey) (f : Instance → Instance) :
    ({ w with registry := w.registry.modify key f } : World).Housed := by
  intro concept h
  exact hw concept ((Table.contains_modify _ _ _ _).symm.trans h)

/-- Making the instance of a concept stores what its factory creates. -/
theorem exists_of_materialize (h : w.materialize name = .ok w') :
    ∃ c i, w.concept? name = some c ∧ c.factory.create name name c.seed = .ok i ∧
      w' = { w with registry := w.registry.replace i } := by
  unfold materialize at h
  cases hc : w.concept? name with
  | none =>
      rw [hc] at h
      nomatch h
  | some c =>
      rw [hc] at h
      dsimp only at h
      cases hi : c.factory.create name name c.seed with
      | error e =>
          rw [hi] at h
          nomatch h
      | ok i =>
          rw [hi] at h
          cases h
          exact ⟨c, i, rfl, hi, rfl⟩

/-- Making an instance changes the registry only, and the instance has a concept to live in. -/
theorem materialize_keeps (hw : w.Housed) (h : w.materialize name = .ok w') :
    w'.Housed ∧ w'.ontology = w.ontology := by
  obtain ⟨c, i, hc, hi, rfl⟩ := exists_of_materialize h
  refine ⟨hw.replace ?_, rfl⟩
  rw [Factory.key_of_create hi]
  exact Ontology.hasConcept_of_get? hc

theorem materializeAll_keeps (names : List String) (hw : w.Housed) :
    (materializeAll names w).2.Housed ∧ (materializeAll names w).2.ontology = w.ontology := by
  induction names generalizing w with
  | nil => exact ⟨hw, rfl⟩
  | cons name rest ih =>
      unfold materializeAll
      cases h : w.materialize name with
      | error e => exact ⟨hw, rfl⟩
      | ok w' =>
          obtain ⟨hhoused, hsame⟩ := materialize_keeps hw h
          obtain ⟨hrest, hrest'⟩ := ih hhoused
          exact ⟨hrest, hrest'.trans hsame⟩

theorem syncStatics_keeps (w : World) :
    w.syncStatics.2.Housed ∧ w.syncStatics.2.ontology = w.ontology :=
  materializeAll_keeps _ (housed_dropOrphans w)

/-! ## Making the missing instances -/

/-- If concepts stand under their own names, the missing instances are those of the static concepts
without one. -/
theorem mem_pendingStatics (hnames : ∀ n c, w.concept? n = some c → c.name = n) :
    name ∈ w.pendingStatics ↔ ∃ c, w.concept? name = some c ∧ c.category = .static ∧
      w.registry.contains (.singleton name) = false := by
  have htest : ∀ c : Concept, (decide (c.category = .static) &&
      !w.registry.contains (.singleton c.name)) = true ↔
      c.category = .static ∧ w.registry.contains (.singleton c.name) = false := by
    intro c
    rw [Bool.and_eq_true, decide_eq_true_eq, Bool.not_eq_true']
  constructor
  · intro h
    obtain ⟨c, hc, rfl⟩ := List.mem_map.mp h
    obtain ⟨hmem, hc⟩ := List.mem_filter.mp hc
    obtain ⟨n, hn⟩ := Table.mem_values_iff.mp hmem
    rw [← hnames n c hn] at hn
    exact ⟨c, hn, (htest c).mp hc⟩
  · rintro ⟨c, hc, hpending⟩
    obtain rfl := hnames name c hc
    refine List.mem_map.mpr ⟨c, List.mem_filter.mpr ⟨?_, (htest c).mpr hpending⟩, rfl⟩
    exact Table.mem_values_iff.mpr ⟨c.name, hc⟩

theorem materialize_of_concept {c : Concept} (hc : w.concept? name = some c) :
    w.materialize name =
      (c.factory.create name name c.seed).map fun i =>
        { w with registry := w.registry.replace i } := by
  unfold materialize
  rw [hc]
  dsimp only
  cases c.factory.create name name c.seed <;> rfl

/-- The instances are made up to one whose factory refuses its name. -/
theorem exists_of_materializeAll_error {names : List String}
    (hnames : ∀ name ∈ names, w.ontology.hasConcept name = true)
    (h : materializeAll names w = (.error e, w')) :
    ∃ name ∈ names, ∃ c, w.concept? name = some c ∧ c.factory.create name name c.seed = .error e ∧
      w'.registry.contains (.singleton name) = w.registry.contains (.singleton name) := by
  induction names generalizing w with
  | nil => cases h
  | cons first rest ih =>
      obtain ⟨c, hc⟩ := Ontology.hasConcept_iff.mp (hnames first List.mem_cons_self)
      rw [materializeAll, materialize_of_concept hc] at h
      cases hi : c.factory.create first first c.seed with
      | error e' =>
          rw [hi] at h
          cases h
          exact ⟨first, List.mem_cons_self, c, hc, hi, rfl⟩
      | ok i =>
          rw [hi] at h
          change materializeAll rest { w with registry := w.registry.replace i } = _ at h
          obtain ⟨name, hname, d, hd, hrefused, hsame⟩ :=
            ih (w := { w with registry := w.registry.replace i })
              (fun name hname => hnames name (List.mem_cons_of_mem first hname)) h
          refine ⟨name, List.mem_cons_of_mem first hname, d, hd, hrefused, ?_⟩
          rw [hsame, Registry.contains_replace, Factory.key_of_create hi]
          -- a name that has just been taken is not the one that is refused
          have hne : name ≠ first := by
            rintro rfl
            obtain rfl := Option.some.inj (hc.symm.trans hd)
            rw [hi] at hrefused
            cases hrefused
          rw [decide_eq_false fun heq => hne (congrArg InstanceKey.name heq), Bool.false_or]

/-- If no factory refuses, every instance is there in the end, and those before still are. -/
theorem contains_of_materializeAll_ok {names : List String}
    (h : materializeAll names w = (.ok (), w')) :
    (∀ name ∈ names, w'.registry.contains (.singleton name) = true) ∧
      ∀ key, w.registry.contains key = true → w'.registry.contains key = true := by
  induction names generalizing w with
  | nil =>
      cases h
      exact ⟨fun name hname => absurd hname List.not_mem_nil, fun key hkey => hkey⟩
  | cons first rest ih =>
      rw [materializeAll] at h
      cases hfirst : w.materialize first with
      | error e =>
          rw [hfirst] at h
          cases h
      | ok w₁ =>
          rw [hfirst] at h
          obtain ⟨hrest, hkept⟩ := ih h
          obtain ⟨c, i, -, hi, rfl⟩ := exists_of_materialize hfirst
          refine ⟨List.forall_mem_cons.mpr ⟨hkept _ ?_, hrest⟩, fun key hkey => hkept key ?_⟩
          · rw [Registry.contains_replace, Factory.key_of_create hi]
            exact Bool.or_eq_true_iff.mpr (Or.inl (decide_eq_true rfl))
          · rw [Registry.contains_replace, hkey, Bool.or_true]

/-- Every static concept has its instance. -/
def Furnished (w : World) : Prop :=
  ∀ c ∈ w.ontology.concepts.values, c.category = .static →
    w.registry.contains (.singleton c.name) = true

instance (w : World) : Decidable w.Furnished :=
  inferInstanceAs (Decidable (∀ c ∈ w.ontology.concepts.values, _ → _))

/-- A world in line with its ontology stays as it is. -/
theorem Housed.syncStatics_eq (hw : w.Housed) (hstatics : w.Furnished) :
    w.syncStatics = (.ok (), w) := by
  -- no instance is without its concept, and no static concept without its instance
  have hdrop : w.dropOrphans = w := by
    have htable : (w.registry.byConcept.filter fun c _ => w.ontology.hasConcept c) =
        w.registry.byConcept := by
      refine Table.ext_get? fun concept => ?_
      rw [Table.get?_filter]
      cases h : w.registry.byConcept.get? concept with
      | none => rfl
      | some shelf =>
          have hexists := hw concept (Table.contains_iff.mpr ⟨shelf, h⟩)
          rw [Option.filter_some, if_pos hexists]
    unfold dropOrphans
    rw [htable]
  have hpending : w.pendingStatics = [] := by
    unfold pendingStatics
    rw [List.map_eq_nil_iff, List.filter_eq_nil_iff]
    intro c hc
    rw [Bool.and_eq_true, not_and, decide_eq_true_eq]
    intro hstatic
    rw [hstatics c hc hstatic]
    exact Bool.false_ne_true
  unfold syncStatics
  dsimp only
  rw [hdrop, hpending]
  rfl

/-- Rebuilding a world that is up to date changes nothing. -/
theorem Housed.rebuild_eq (hw : w.Housed) (hstatics : w.Furnished) {o : Ontology}
    (ho : o.rebuild = w.ontology) :
    World.rebuild { ontology := o, registry := w.registry } = (.ok (), w) := by
  unfold World.rebuild
  dsimp only
  rw [ho]
  exact hw.syncStatics_eq hstatics

end World

end Credence
