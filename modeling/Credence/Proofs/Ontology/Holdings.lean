import Credence.Proofs.Ontology.Aliases
import Credence.Proofs.Value.Representatives

/-!
# Inherited properties

A concept collects, for every key, the different values that its parents have under it, and looks at
none of them under a key that it declares itself.  Nothing in this speaks of anything above the
parents.  But as every parent has collected its values in the same way, the values of a concept are
those of the nearest declarations: those at the ends of the chains of parents on which nothing
before the end declares the key (`Nearest`).

One half follows a value of the concept up, along the edges of the linked ontology, to where it is
declared.  The other half follows a declared value down the chain; at every step it may be replaced
by an equal one that another parent contributes, and an undefined number may get lost.
-/

section Holdings

open Relation (ReflTransGen)

namespace Credence

/-! ## What a concept has under a key -/

theorem Holding.getD_values_ofValues? (values : List Value) :
    ((ofValues? values).map Holding.values).getD [] = values := by
  rcases values with - | ⟨v, - | ⟨w, rest⟩⟩ <;> rfl

namespace Concept

variable {c : Concept} {key : String} {v : Value}

/-- The values that a concept has under a key. -/
def valuesUnder (c : Concept) (key : String) : List Value :=
  ((c.property? key).map Holding.values).getD []

/-- A declared value hides what is inherited. -/
theorem valuesUnder_of_own (hown : c.ownProperties.get? key = some v) :
    c.valuesUnder key = [v] := by
  unfold valuesUnder property?
  rw [hown]
  rfl

theorem valuesUnder_of_not_own (hown : c.ownProperties.get? key = none) :
    c.valuesUnder key = ((c.inherited.properties.get? key).getD []).map (·.1) := by
  unfold valuesUnder property?
  rw [hown]
  cases c.inherited.properties.get? key with
  | none => rfl
  | some counts => exact Holding.getD_values_ofValues? (counts.map (·.1))

/-- What a concept has under a key follows from the values. -/
theorem property?_eq (c : Concept) (key : String) :
    c.property? key = Holding.ofValues? (c.valuesUnder key) := by
  cases hown : c.ownProperties.get? key with
  | some v =>
      rw [valuesUnder_of_own hown]
      unfold property?
      rw [hown]
      rfl
  | none =>
      rw [valuesUnder_of_not_own hown]
      unfold property?
      rw [hown]
      cases c.inherited.properties.get? key with
      | none => rfl
      | some counts => rfl

/-- The table of all properties has what the concept has under each key. -/
theorem get?_properties (c : Concept) (key : String) : c.properties.get? key = c.property? key := by
  unfold properties
  rw [Table.get?_ofList_filterMap]
  split
  · rfl
  · rename_i hkey
    -- what is neither declared nor inherited is not there
    rw [KeySet.mem_toList_iff, KeySet.has_ofList, decide_eq_true_eq, List.mem_append, not_or,
      Table.mem_keys_iff, Table.mem_keys_iff, Table.contains, Table.contains,
      Option.not_isSome_iff_eq_none, Option.not_isSome_iff_eq_none] at hkey
    unfold property?
    rw [hkey.1, hkey.2]
    rfl

end Concept

/-! ## Collecting what parents have -/

namespace Inherited

variable {kind : Value → Prop} {counts : List (Value × Nat)}

/-- A value is added to those counted if it is equal to none of them. -/
theorem map_fst_bumpValue (v : Value) (counts : List (Value × Nat)) :
    (bumpValue v counts).map (·.1) =
      if (counts.map (·.1)).any (· == v) then counts.map (·.1) else counts.map (·.1) ++ [v] := by
  induction counts with
  | nil => rfl
  | cons head rest ih =>
      obtain ⟨w, n⟩ := head
      unfold bumpValue
      by_cases heq : (w == v) = true
      · rw [if_pos heq]
        simp [heq]
      · rw [if_neg heq, List.map_cons, ih]
        by_cases hrest : (rest.map (·.1)).any (· == v) = true
        · simp [heq, hrest]
        · simp [heq, hrest]

theorem represents_foldl_bumpValue (more : List Value)
    (h : Represents kind (counts.map (·.1))) :
    Represents (fun w => kind w ∨ w ∈ more)
      ((more.foldl (fun counts v => bumpValue v counts) counts).map (·.1)) := by
  induction more generalizing kind counts with
  | nil => exact h.congr fun w => by simp
  | cons v rest ih =>
      have hfirst := h.insert v
      rw [← map_fst_bumpValue] at hfirst
      exact (ih hfirst).congr fun w => by rw [List.mem_cons, or_assoc]

/-- One more parent adds its values under a key. -/
theorem getD_properties_addParent (i : Inherited) (p : Concept) (key : String) :
    ((i.addParent p).properties.get? key).getD [] =
      (p.valuesUnder key).foldl (fun counts v => bumpValue v counts)
        ((i.properties.get? key).getD []) := by
  have hdistinct : (p.properties.entries.map Prod.fst).Nodup := Table.keys_nodup p.properties
  have hentries := Table.get?_foldl_alter
    (f := fun e counts => e.2.values.foldl (fun counts v => bumpValue v counts) (counts.getD []))
    hdistinct i.properties key
  rw [Table.find?_entries, Concept.get?_properties] at hentries
  rw [addParent, hentries, Concept.valuesUnder]
  cases p.property? key with
  | none => rfl
  | some h => rfl

/-- What is inherited under a key represents the values that some parent has under it. -/
theorem represents_ofParents (parents : List Concept) (key : String) :
    Represents (fun v => ∃ p ∈ parents, v ∈ p.valuesUnder key)
      ((((ofParents parents).properties.get? key).getD []).map (·.1)) := by
  have hfoldl : ∀ (parents : List Concept) (i : Inherited),
      ((parents.foldl addParent i).properties.get? key).getD [] =
        (parents.flatMap fun p => p.valuesUnder key).foldl (fun counts v => bumpValue v counts)
          ((i.properties.get? key).getD []) := by
    intro parents
    induction parents with
    | nil => exact fun _ => rfl
    | cons p rest ih =>
        intro i
        rw [List.foldl_cons, ih, getD_properties_addParent, List.flatMap_cons, List.foldl_append]
  rw [ofParents, hfoldl]
  refine (represents_foldl_bumpValue _ .nil).congr fun v => ?_
  rw [false_or, List.mem_flatMap]

end Inherited

namespace Ontology

variable {o : Ontology} {name key : String} {c : Concept} {v : Value}

/-! ## The nearest declarations -/

/-- A concept that declares nothing under a key leaves it to an existing parent. -/
def Defers (o : Ontology) (key c p : String) : Prop :=
  o.Parent c p ∧ ∃ d, o.concepts.get? c = some d ∧ d.ownProperties.get? key = none

/-- A chain of parents leads to a declaration of a value under a key, and no concept of the chain
before the last one declares anything under it. -/
def Nearest (o : Ontology) (key name : String) (v : Value) : Prop :=
  ∃ a d, ReflTransGen (o.Defers key) name a ∧ o.concepts.get? a = some d ∧
    d.ownProperties.get? key = some v

/-- Every value that is declared under a key is free of undefined numbers. -/
def DefinedUnder (o : Ontology) (key : String) : Prop :=
  ∀ a d v, o.concepts.get? a = some d → d.ownProperties.get? key = some v → v.isDefined = true

theorem Settled.represents_parents (hs : o.Settled) (hc : o.concepts.get? name = some c)
    (hown : c.ownProperties.get? key = none) :
    Represents (fun v => ∃ p ∈ o.parentsOf c, v ∈ p.valuesUnder key) (c.valuesUnder key) := by
  rw [Concept.valuesUnder_of_not_own hown, hs name c hc]
  exact Inherited.represents_ofParents (o.parentsOf c) key

/-- Every value of a concept is declared nearest to it. -/
theorem Linked.nearest_of_mem (ho : o.Linked) (hs : o.Settled)
    (hc : o.concepts.get? name = some c) (hv : v ∈ c.valuesUnder key) : o.Nearest key name v := by
  induction name using ho.induction generalizing c with
  | step name ih =>
      cases hown : c.ownProperties.get? key with
      | some u =>
          rw [Concept.valuesUnder_of_own hown, List.mem_singleton] at hv
          exact ⟨name, c, ReflTransGen.refl, hc, hv ▸ hown⟩
      | none =>
          obtain ⟨d, hd, hv⟩ := (hs.represents_parents hc hown).sound hv
          obtain ⟨p, hparent, hd⟩ := mem_parentsOf.mp hd
          have hchild := ho.child_of_parent (hasConcept_of_get? hd) hc hparent
          obtain ⟨a, e, hpath, he, hv⟩ := ih p hchild hd hv
          exact ⟨a, e, hpath.head ⟨ho.parent_iff.mpr hchild, c, hc, hown⟩, he, hv⟩

/-- Every value that is declared nearest to a concept and is equal to itself is equal to one of its
values. -/
theorem Settled.exists_mem_of_nearest (hs : o.Settled) (hc : o.concepts.get? name = some c)
    (hv : o.Nearest key name v) (hself : (v == v) = true) :
    ∃ w ∈ c.valuesUnder key, (w == v) = true := by
  obtain ⟨a, e, hpath, he, hown⟩ := hv
  induction hpath using ReflTransGen.head_induction_on generalizing c with
  | refl =>
      rw [he, Option.some.injEq] at hc
      rw [← hc, Concept.valuesUnder_of_own hown]
      exact ⟨v, List.mem_cons_self, hself⟩
  | head hstep _ ih =>
      obtain ⟨⟨d, hd, hparent, hexists⟩, d', hd', hnone⟩ := hstep
      rw [hc, Option.some.injEq] at hd hd'
      subst hd hd'
      obtain ⟨p, hp⟩ := hasConcept_iff.mp hexists
      obtain ⟨w, hw, heq⟩ := ih hp
      -- in its place may stand an equal value of another parent
      obtain ⟨w', hw', heq'⟩ := (hs.represents_parents hc hnone).complete
        ⟨p, mem_parentsOf.mpr ⟨_, hparent, hp⟩, hw⟩ (BEq.trans heq (BEq.symm heq))
      exact ⟨w', hw', BEq.trans heq' heq⟩

/-- The values of a concept represent those that are declared nearest to it. -/
theorem Linked.represents_nearest (ho : o.Linked) (hs : o.Settled)
    (hc : o.concepts.get? name = some c) (key : String) :
    Represents (o.Nearest key name) (c.valuesUnder key) where
  sound hv := ho.nearest_of_mem hs hc hv
  complete hv hself := hs.exists_mem_of_nearest hc hv hself
  distinct := by
    cases hown : c.ownProperties.get? key with
    | some v =>
        rw [Concept.valuesUnder_of_own hown]
        exact List.pairwise_singleton _ v
    | none => exact (hs.represents_parents hc hown).distinct

/-- In an ontology that changes have led to, and in which the numbers under a key are defined, the
values of a concept under the key are, up to equality and without repetition, those that are
declared nearest to it: the concept has nothing under the key if there are none, a single value if
all of them are equal, and several values if there are different ones. -/
theorem property_nearest (h : o.Reachable) (hdefined : o.DefinedUnder key)
    (hc : o.concepts.get? name = some c) :
    (∀ v, (∃ w ∈ c.valuesUnder key, (w == v) = true) ↔
      ∃ u, o.Nearest key name u ∧ (u == v) = true) ∧
    ((c.valuesUnder key).Pairwise fun v w => (v == w) = false) ∧
    (c.property? key = none ↔ ∀ v, ¬ o.Nearest key name v) ∧
    ((∃ v, c.property? key = some (.single v)) ↔
      ∃ v, o.Nearest key name v ∧ ∀ u, o.Nearest key name u → (u == v) = true) ∧
    ((∃ vs, c.property? key = some (.multi vs)) ↔
      ∃ u v, o.Nearest key name u ∧ o.Nearest key name v ∧ (u == v) = false) := by
  have hvalues := h.kept.linked.represents_nearest h.kept.settled hc key
  have hself : ∀ v, o.Nearest key name v → (v == v) = true := by
    rintro v ⟨a, d, -, hd, hown⟩
    exact Value.beq_self (hdefined a d v hd hown)
  rw [c.property?_eq key]
  exact ⟨hvalues.exists_mem_iff hself, hvalues.distinct, hvalues.ofValues?_eq_none_iff hself,
    hvalues.ofValues?_single_iff hself, hvalues.ofValues?_multi_iff hself⟩

/-- An amphibian moves on water, as a boat, which hides what it would be as a vehicle, and on land,
as the car is a vehicle and declares nothing. -/
theorem property_vehicles : vehicles.DefinedUnder "moves on" ∧
    ∃ c, vehicles.concepts.get? "Amphibian" = some c ∧
      (∃ u, vehicles.Nearest "moves on" "Amphibian" u ∧ (u == .text "water") = true) ∧
      (∃ u, vehicles.Nearest "moves on" "Amphibian" u ∧ (u == .text "land") = true) ∧
      ∃ vs, c.property? "moves on" = some (.multi vs) := by
  obtain ⟨hall, hamphibian, hboth⟩ :
      (vehicles.concepts.values.all fun d =>
        (d.ownProperties.get? "moves on").all Value.isDefined) = true ∧
      vehicles.hasConcept "Amphibian" = true ∧
      ((vehicles.concepts.get? "Amphibian").all fun c =>
        (c.valuesUnder "moves on").any (· == .text "water") &&
          (c.valuesUnder "moves on").any (· == .text "land")) = true := by decide +kernel
  have hdefined : vehicles.DefinedUnder "moves on" := fun a d v hd hown => by
    have hd := List.all_eq_true.mp hall d (Table.mem_values_iff.mpr ⟨a, hd⟩)
    rwa [hown] at hd
  obtain ⟨c, hc⟩ := hasConcept_iff.mp hamphibian
  obtain ⟨hvalues, -, -, -, hmulti⟩ := property_nearest reachable_vehicles hdefined hc
  rw [hc, Option.all_some, Bool.and_eq_true, List.any_eq_true, List.any_eq_true] at hboth
  obtain ⟨u, hu, hwater⟩ := (hvalues _).mp hboth.1
  obtain ⟨v, hv, hland⟩ := (hvalues _).mp hboth.2
  refine ⟨hdefined, c, hc, ⟨u, hu, hwater⟩, ⟨v, hv, hland⟩, hmulti.mpr ⟨u, v, hu, hv, ?_⟩⟩
  refine Bool.eq_false_iff.mpr fun heq => ?_
  have hsame := BEq.trans (BEq.symm hwater) (BEq.trans heq hland)
  nomatch hsame

end Ontology

end Credence

end Holdings
