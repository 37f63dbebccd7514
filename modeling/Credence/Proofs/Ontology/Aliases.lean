import Credence.Proofs.Ontology.Hierarchy

/-!
# Inherited aliases

A concept counts, for every alias, the parents that contribute it.  In an ontology that is up to
date each concept has counted the aliases of its present parents, so what holds between a concept
and its parents carries over, along the edges, to a concept and everything above it: its aliases are
the declared ones of its own and of all its ancestors.
-/

section Aliases

open Relation (TransGen ReflTransGen)

namespace Credence

/-! ## Counting what parents contribute -/

namespace Inherited

/-- One more parent is counted once for each of its aliases. -/
theorem get?_aliases_addParent (i : Inherited) (p : Concept) (name : String) :
    (i.addParent p).aliases.get? name =
      if p.aliases.has name = true then some ((i.aliases.get? name).getD 0 + 1)
      else i.aliases.get? name := by
  have hdistinct : (p.aliases.entries.map Prod.fst).Nodup := Table.keys_nodup p.aliases
  have haliases := Table.get?_foldl_alter (f := fun _ n => n.getD 0 + 1) hdistinct i.aliases name
  rw [Table.find?_entries] at haliases
  rw [addParent, KeySet.toList, Table.keys, List.foldl_map, haliases, KeySet.has, Table.contains]
  cases p.aliases.get? name with
  | none => rfl
  | some u => rfl

theorem get?_aliases_foldl_addParent (parents : List Concept) (i : Inherited) (name : String) :
    (parents.foldl addParent i).aliases.get? name =
      if parents.countP (fun p => p.aliases.has name) = 0 then i.aliases.get? name
      else some ((i.aliases.get? name).getD 0 + parents.countP fun p => p.aliases.has name) := by
  induction parents generalizing i with
  | nil => simp
  | cons p rest ih =>
      rw [List.foldl_cons, ih, get?_aliases_addParent, List.countP_cons]
      by_cases hname : p.aliases.has name = true
      · by_cases hrest : rest.countP (fun p => p.aliases.has name) = 0
        · simp [hname, hrest]
        · simp only [hname, hrest, if_true, if_false, Option.getD_some, Nat.add_eq_zero_iff,
            false_and, one_ne_zero]
          congr 1
          omega
      · simp [hname]

/-- The count of an alias is the number of parents that have it. -/
theorem getD_aliases_ofParents (parents : List Concept) (name : String) :
    ((ofParents parents).aliases.get? name).getD 0 =
      parents.countP fun p => p.aliases.has name := by
  rw [ofParents, get?_aliases_foldl_addParent]
  by_cases hcount : parents.countP (fun p => p.aliases.has name) = 0
  · rw [if_pos hcount, hcount]
    rfl
  · rw [if_neg hcount]
    exact Nat.zero_add _

/-- An alias is inherited if some parent has it. -/
theorem contains_aliases_ofParents (parents : List Concept) (name : String) :
    (ofParents parents).aliases.contains name = true ↔
      ∃ p ∈ parents, p.aliases.has name = true := by
  rw [Table.contains, ofParents, get?_aliases_foldl_addParent, ← List.countP_pos_iff]
  by_cases hcount : parents.countP (fun p => p.aliases.has name) = 0
  · rw [if_pos hcount, hcount]
    exact iff_of_false Bool.false_ne_true (lt_irrefl 0)
  · rw [if_neg hcount]
    exact iff_of_true rfl (Nat.pos_of_ne_zero hcount)

end Inherited

/-- The aliases of a concept are its own and those that it inherits. -/
theorem Concept.has_aliases (c : Concept) (name : String) :
    c.aliases.has name = true ↔
      c.ownAliases.has name = true ∨ c.inherited.aliases.contains name = true := by
  rw [aliases, KeySet.has_addAll, Bool.or_eq_true, decide_eq_true_eq, Table.mem_keys_iff, or_comm]

namespace Ontology

variable {o : Ontology} {name other : String} {c d : Concept}

/-! ## Aliases along the edges -/

theorem mem_parentsOf : d ∈ o.parentsOf c ↔
    ∃ p, c.parents.has p = true ∧ o.concepts.get? p = some d := by
  simp only [parentsOf, List.mem_filterMap, KeySet.mem_toList_iff]

/-- In a settled ontology the aliases of a concept are its own and those of its parents. -/
theorem Settled.has_aliases (hs : o.Settled) (hc : o.concepts.get? name = some c) :
    c.aliases.has other = true ↔
      c.ownAliases.has other = true ∨ ∃ p d, c.parents.has p = true ∧
        o.concepts.get? p = some d ∧ d.aliases.has other = true := by
  rw [Concept.has_aliases, hs name c hc, Inherited.contains_aliases_ofParents]
  refine or_congr_right ⟨?_, ?_⟩
  · rintro ⟨d, hparent, hinherited⟩
    obtain ⟨p, hparent, hd⟩ := mem_parentsOf.mp hparent
    exact ⟨p, d, hparent, hd, hinherited⟩
  · rintro ⟨p, d, hparent, hd, hinherited⟩
    exact ⟨d, mem_parentsOf.mpr ⟨p, hparent, hd⟩, hinherited⟩

/-- A concept has the aliases that itself or something above it declares. -/
theorem Linked.has_aliases (ho : o.Linked) (hs : o.Settled)
    (hc : o.concepts.get? name = some c) :
    c.aliases.has other = true ↔
      ∃ a d, ReflTransGen o.Child a name ∧ o.concepts.get? a = some d ∧
        d.ownAliases.has other = true := by
  constructor
  · induction name using ho.induction generalizing c with
    | step name ih =>
        intro halias
        rcases (hs.has_aliases hc).mp halias with hown | ⟨p, d, hparent, hd, hinherited⟩
        · exact ⟨name, c, ReflTransGen.refl, hc, hown⟩
        · have hchild := ho.child_of_parent (hasConcept_of_get? hd) hc hparent
          obtain ⟨a, e, hpath, he, hown⟩ := ih p hchild hd hinherited
          exact ⟨a, e, hpath.tail hchild, he, hown⟩
  · rintro ⟨a, e, hpath, he, hown⟩
    induction hpath generalizing c with
    | refl =>
        rw [he, Option.some.injEq] at hc
        subst hc
        exact (hs.has_aliases he).mpr (Or.inl hown)
    | tail _ hchild ih =>
        obtain ⟨d, hd⟩ := hasConcept_iff.mp hchild.hasConcept_parent
        exact (hs.has_aliases hc).mpr
          (Or.inr ⟨_, d, ho.parent_of_child hc hchild, hd, ih hd⟩)

/-- In an ontology that changes have led to, the aliases of a concept are those that itself declares
and those that its ancestors declare, and the count of an alias is the number of its existing
parents that have the alias. -/
theorem aliases_inherited (h : o.Reachable) (hc : o.concepts.get? name = some c) (other : String) :
    (c.aliases.has other = true ↔
      c.ownAliases.has other = true ∨ ∃ a d, (o.ancestors name).has a = true ∧
        o.concepts.get? a = some d ∧ d.ownAliases.has other = true) ∧
    c.aliasCount other = (o.parentsOf c).countP fun p => p.aliases.has other := by
  have ho := h.kept
  constructor
  · rw [ho.linked.has_aliases ho.settled hc]
    constructor
    · rintro ⟨a, d, hpath, hd, hown⟩
      rcases Relation.reflTransGen_iff_eq_or_transGen.mp hpath with rfl | habove
      · rw [hc, Option.some.injEq] at hd
        exact Or.inl (hd ▸ hown)
      · exact Or.inr ⟨a, d, ho.linked.has_ancestors_iff.mpr habove, hd, hown⟩
    · rintro (hown | ⟨a, d, habove, hd, hown⟩)
      · exact ⟨name, c, ReflTransGen.refl, hc, hown⟩
      · exact ⟨a, d, (ho.linked.has_ancestors_iff.mp habove).to_reflTransGen, hd, hown⟩
  · rw [Concept.aliasCount, ho.settled name c hc, Inherited.getD_aliases_ofParents]

/-- An amphibian is a conveyance twice over, as a boat and as a car. -/
theorem aliases_vehicles : ∃ c, vehicles.concepts.get? "Amphibian" = some c ∧
    c.aliases.has "conveyance" = true ∧ c.aliasCount "conveyance" = 2 := by
  obtain ⟨hamphibian, habove, hdeclared, hparents⟩ :
      vehicles.hasConcept "Amphibian" = true ∧
      (vehicles.ancestors "Amphibian").has "Vehicle" = true ∧
      ((vehicles.concepts.get? "Vehicle").any fun d => d.ownAliases.has "conveyance") = true ∧
      ((vehicles.concepts.get? "Amphibian").map fun c =>
        (vehicles.parentsOf c).countP fun p => p.aliases.has "conveyance") = some 2 := by
    decide +kernel
  obtain ⟨c, hc⟩ := hasConcept_iff.mp hamphibian
  obtain ⟨d, hd, hown⟩ := (Option.any_eq_true _ _).mp hdeclared
  obtain ⟨halias, hcount⟩ := aliases_inherited reachable_vehicles hc "conveyance"
  rw [hc, Option.map_some, Option.some.injEq] at hparents
  exact ⟨c, hc, halias.mpr (Or.inr ⟨"Vehicle", d, habove, hd, hown⟩), hcount.trans hparents⟩

end Ontology

end Credence

end Aliases
