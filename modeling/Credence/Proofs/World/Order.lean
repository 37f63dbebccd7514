import Credence.Proofs.Ontology.Roster
import Credence.Proofs.World.Statics

/-!
# Order in the registry

A registry is *orderly* if every instance stands under its own key and its concept may have it: an
abstract concept has no instances, a static one has none but the one of its name.  Since concepts
keep their categories for life, a change of the ontology can only take concepts away from under
their instances, and those are dropped when the registry is brought in line.

The other half is about missing instances.  In an ontology whose static concepts all have factories
that take their names (`Ontology.Fit`), bringing the registry in line cannot fail, and furnishes the
world.
-/

namespace Credence

/-- A concept of a category may have an instance under a key. -/
def Category.Admits (category : Category) (key : InstanceKey) : Prop :=
  match category with
  | .abstract => False
  | .static => key = .singleton key.concept
  | .dynamic => True

/-- The factory of every static concept takes the name of the concept. -/
def Ontology.Fit (o : Ontology) : Prop :=
  ∀ c ∈ o.concepts.values, c.category = .static →
    (c.factory.create c.name c.name c.seed).isOk = true

instance (o : Ontology) : Decidable o.Fit :=
  inferInstanceAs (Decidable (∀ c ∈ o.concepts.values, _ → _))

namespace World

variable {w w' : World} {name : String} {key : InstanceKey} {i : Instance}

/-- Every instance stands under its own key, and its concept exists and may have it. -/
structure Orderly (w : World) : Prop where
  housed : w.Housed
  rostered : w.ontology.Rostered
  stored {key : InstanceKey} {i : Instance} (hi : w.registry.get? key = some i) :
    i.key = key ∧ ∃ e, w.ontology.roster.get? key.concept = some e ∧ e.2.Admits key

theorem Orderly.names (hw : w.Orderly) {c : Concept} (hc : w.concept? name = some c) :
    c.name = name :=
  hw.rostered name _ (Ontology.get?_roster_of_concept hc)

theorem orderly_empty : ({} : World).Orderly where
  housed _ h := nomatch h
  rostered _ _ h := nomatch h
  stored h := nomatch h

/-- Of the ontology, only the roster matters. -/
theorem Orderly.congr (hw : w.Orderly) {o : Ontology} (h : o.roster = w.ontology.roster) :
    ({ w with ontology := o } : World).Orderly where
  housed concept hshelf := by
    have hold := hw.housed concept hshelf
    rw [Ontology.hasConcept_eq_roster] at hold ⊢
    exact h ▸ hold
  rostered x e he := hw.rostered x e (h ▸ he)
  stored hi := h ▸ hw.stored hi

/-! ## Changes of the registry -/

/-- A concept gets an instance that it may have. -/
theorem Orderly.replace (hw : w.Orderly) {e : String × Category}
    (he : w.ontology.roster.get? i.key.concept = some e) (hadmits : e.2.Admits i.key) :
    ({ w with registry := w.registry.replace i } : World).Orderly where
  housed := by
    refine hw.housed.replace ?_
    rw [Ontology.hasConcept_eq_roster, he]
    rfl
  rostered := hw.rostered
  stored {key j} hj := by
    rw [Registry.get?_replace] at hj
    split at hj
    · rename_i hkey
      cases hj
      subst hkey
      exact ⟨rfl, e, he, hadmits⟩
    · exact hw.stored hj

theorem Orderly.erase (hw : w.Orderly) (key : InstanceKey) :
    ({ w with registry := w.registry.erase key } : World).Orderly where
  housed := hw.housed.erase key
  rostered := hw.rostered
  stored {key' j} hj := by
    rw [Registry.get?_erase] at hj
    split at hj
    · nomatch hj
    · exact hw.stored hj

/-- An instance changes and keeps its key. -/
theorem Orderly.modify (hw : w.Orderly) (key : InstanceKey) {f : Instance → Instance}
    (hf : ∀ i, (f i).key = i.key) :
    ({ w with registry := w.registry.modify key f } : World).Orderly where
  housed := hw.housed.modify key f
  rostered := hw.rostered
  stored {key' j} hj := by
    rw [Registry.get?_modify] at hj
    split at hj
    · obtain ⟨i, hi, rfl⟩ := Option.map_eq_some_iff.mp hj
      rw [hf]
      exact hw.stored hi
    · exact hw.stored hj

/-! ## Bringing the registry in line -/

theorem get?_dropOrphans (w : World) (key : InstanceKey) :
    w.dropOrphans.registry.get? key =
      if w.ontology.hasConcept key.concept then w.registry.get? key else none := by
  have hshelf : w.dropOrphans.registry.byConcept.get? key.concept =
      (w.registry.byConcept.get? key.concept).filter fun _ => w.ontology.hasConcept key.concept :=
    Table.get?_filter _ _ _
  unfold Registry.get?
  rw [hshelf]
  by_cases hexists : w.ontology.hasConcept key.concept = true
  · rw [if_pos hexists]
    cases w.registry.byConcept.get? key.concept with
    | none => rfl
    | some shelf => rw [Option.filter_some, if_pos hexists]
  · rw [if_neg hexists]
    cases w.registry.byConcept.get? key.concept with
    | none => rfl
    | some shelf => rw [Option.filter_some, if_neg hexists]; rfl

/-- The ontology changes, and instances of concepts that are gone are dropped. -/
theorem Orderly.dropOrphans (hw : w.Orderly) {o : Ontology} (h : w.ontology.Succeeds o) :
    ({ w with ontology := o } : World).dropOrphans.Orderly where
  housed := housed_dropOrphans _
  rostered := hw.rostered.succeeds h
  stored {key i} hi := by
    rw [get?_dropOrphans] at hi
    split at hi
    · rename_i hexists
      obtain ⟨hkey, e, he, hadmits⟩ := hw.stored hi
      refine ⟨hkey, e, ?_, hadmits⟩
      -- the concept is still there, so it is the one that it was
      obtain ⟨c, hc⟩ := Ontology.hasConcept_iff.mp hexists
      have hroster := Ontology.get?_roster_of_concept hc
      rcases h _ _ hroster with hold | ⟨hnone, -⟩
      · rw [he] at hold
        exact hroster.trans hold.symm
      · rw [he] at hnone
        nomatch hnone
    · nomatch hi

/-- A static concept gets the instance of its name. -/
theorem Orderly.materialize (hw : w.Orderly) {c : Concept} (hc : w.concept? name = some c)
    (hstatic : c.category = .static) (h : w.materialize name = .ok w') : w'.Orderly := by
  obtain ⟨d, i, hd, hi, rfl⟩ := exists_of_materialize h
  obtain rfl := Option.some.inj (hc.symm.trans hd)
  have hkey : i.key = .singleton name := Factory.key_of_create hi
  refine hw.replace (e := (c.name, .static)) ?_ ?_
  · rw [hkey, ← hstatic]
    exact Ontology.get?_roster_of_concept hc
  · rw [hkey]
    exact rfl

theorem Orderly.materializeAll {names : List String} (hw : w.Orderly)
    (hnames : ∀ name ∈ names, ∃ c, w.concept? name = some c ∧ c.category = .static) :
    (materializeAll names w).2.Orderly := by
  induction names generalizing w with
  | nil => exact hw
  | cons name rest ih =>
      obtain ⟨c, hc, hstatic⟩ := hnames name List.mem_cons_self
      unfold World.materializeAll
      cases h : w.materialize name with
      | error e => exact hw
      | ok w₁ =>
          have hsame := (materialize_keeps hw.housed h).2
          refine ih (hw.materialize hc hstatic h) fun name hname => ?_
          obtain ⟨d, hd, hstatic⟩ := hnames name (List.mem_cons_of_mem _ hname)
          refine ⟨d, ?_, hstatic⟩
          rw [concept?, hsame]
          exact hd

theorem Orderly.syncStatics (hw : w.Orderly) {o : Ontology} (h : w.ontology.Succeeds o) :
    (World.syncStatics { w with ontology := o }).2.Orderly := by
  have hdropped := hw.dropOrphans h
  refine hdropped.materializeAll fun name hname => ?_
  obtain ⟨c, hc, hstatic, -⟩ := (mem_pendingStatics fun _ _ => hdropped.names).mp hname
  exact ⟨c, hc, hstatic⟩

/-! ## Missing instances -/

/-- A furnished world by its roster. -/
theorem Orderly.furnished_iff (hw : w.Orderly) :
    w.Furnished ↔ ∀ name, w.ontology.roster.get? name = some (name, .static) →
      w.registry.contains (.singleton name) = true := by
  constructor
  · intro h name hentry
    rw [Ontology.get?_roster] at hentry
    obtain ⟨c, hc, heq⟩ := Option.map_eq_some_iff.mp hentry
    obtain ⟨rfl, hstatic⟩ := Prod.mk.inj heq
    exact h c (Table.mem_values_iff.mpr ⟨_, hc⟩) hstatic
  · intro h c hmem hstatic
    obtain ⟨name, hc⟩ := Table.mem_values_iff.mp hmem
    obtain rfl := hw.names hc
    refine h c.name ?_
    rw [← hstatic]
    exact Ontology.get?_roster_of_concept hc

/-- More instances, and another ontology with the same roster, leave a world furnished. -/
theorem Furnished.congr (hw : w.Orderly) (hw' : w'.Orderly) (h : w.Furnished)
    (hroster : w'.ontology.roster = w.ontology.roster)
    (hkept : ∀ key, w.registry.contains key = true → w'.registry.contains key = true) :
    w'.Furnished :=
  hw'.furnished_iff.mpr fun name hentry =>
    hkept _ (hw.furnished_iff.mp h name (hroster ▸ hentry))

theorem Orderly.fit (hw : w.Orderly) (hfit : w.ontology.Fit) {c : Concept}
    (hc : w.concept? name = some c) (hstatic : c.category = .static) :
    ∃ i, c.factory.create name name c.seed = .ok i := by
  have hok := hfit c (Table.mem_values_iff.mpr ⟨name, hc⟩) hstatic
  rw [hw.names hc] at hok
  cases hi : c.factory.create name name c.seed with
  | error e =>
      rw [hi] at hok
      nomatch hok
  | ok i => exact ⟨i, rfl⟩

/-- Where no factory refuses, every static concept gets its instance. -/
theorem Orderly.furnished_syncStatics (hw : w.Orderly) {o : Ontology} (h : w.ontology.Succeeds o)
    (hfit : o.Fit) : (World.syncStatics { w with ontology := o }).2.Furnished := by
  have hdropped := hw.dropOrphans h
  have horderly := hw.syncStatics h
  have hpending : ∀ name, name ∈ (World.dropOrphans { w with ontology := o }).pendingStatics ↔ _ :=
    fun name => mem_pendingStatics fun _ _ => hdropped.names
  have hsame := (syncStatics_keeps { w with ontology := o }).2
  cases hrun : World.syncStatics { w with ontology := o } with
  | mk outcome w' =>
      rw [hrun] at horderly hsame
      refine horderly.furnished_iff.mpr fun name hentry => ?_
      rw [hsame, Ontology.get?_roster] at hentry
      obtain ⟨c, hc, heq⟩ := Option.map_eq_some_iff.mp hentry
      cases outcome with
      | error e =>
          -- the first refusal would be that of a factory that takes its name
          obtain ⟨x, hx, d, hd, hrefused, -⟩ := exists_of_materializeAll_error (fun x hx => by
            obtain ⟨d, hd, -⟩ := (hpending x).mp hx
            exact Ontology.hasConcept_of_get? hd) hrun
          obtain ⟨d', hd', hstatic', -⟩ := (hpending x).mp hx
          obtain rfl := Option.some.inj (hd.symm.trans hd')
          obtain ⟨i, hi⟩ := hdropped.fit hfit hd hstatic'
          rw [hi] at hrefused
          nomatch hrefused
      | ok u =>
          obtain ⟨hmade, hkept⟩ := contains_of_materializeAll_ok hrun
          by_cases hold : (World.dropOrphans { w with ontology := o }).registry.contains
              (.singleton name) = true
          · exact hkept _ hold
          · exact hmade name ((hpending name).mpr
              ⟨c, hc, (Prod.mk.inj heq).2, Bool.eq_false_iff.mpr hold⟩)

end World

end Credence
