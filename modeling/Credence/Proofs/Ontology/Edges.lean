import Credence.Ontology.Change
import Credence.Proofs.Ontology.Cascade

/-!
# Changing the edges

Adding a concept, removing one, adding an edge and removing one: what each makes of the edges, that
the ontology stays linked, and which concepts it leaves settled.

New edges start or end at one concept, the one that is added or the child of the new edge.  So a new
circle would go through that concept (`acyclic_of_vertex`), and this is what the checks exclude:
they search what lies above or below it in the old ontology, and the search misses nothing.
-/

section Edges

open Relation (TransGen ReflTransGen)

namespace Credence.Ontology

variable {o : Ontology} {name child parent x p q : String} {c d : Concept}

/-! ## Graphs that differ at one vertex -/

/-- A graph in which only edges at one vertex are new has a circle only through that vertex. -/
theorem acyclic_of_vertex {α : Type} {R R' : α → α → Prop} {v : α} (hR : ∀ x, ¬ TransGen R x x)
    (hv : ¬ TransGen R' v v) (hsub : ∀ p q, R' p q → p ≠ v → q ≠ v → R p q) (x : α) :
    ¬ TransGen R' x x := by
  intro hx
  have hpath : ∀ y, TransGen R' x y → TransGen R x y ∨ TransGen R' x v ∧ ReflTransGen R' v y := by
    intro y hy
    induction hy with
    | @single y hedge =>
        by_cases hy : y = v
        · exact Or.inr ⟨TransGen.single (hy ▸ hedge), hy ▸ ReflTransGen.refl⟩
        · have hne : x ≠ v := fun h => hv (h ▸ hx)
          exact Or.inl (TransGen.single (hsub x y hedge hne hy))
    | @tail y z hxy hedge ih =>
        rcases ih with hold | ⟨hto, hfrom⟩
        · by_cases hy : y = v
          · subst hy
            exact Or.inr ⟨hxy, ReflTransGen.single hedge⟩
          · by_cases hz : z = v
            · exact Or.inr ⟨hz ▸ hxy.tail hedge, hz ▸ ReflTransGen.refl⟩
            · exact Or.inl (hold.tail (hsub y z hedge hy hz))
        · exact Or.inr ⟨hto, hfrom.tail hedge⟩
  rcases hpath x hx with hold | ⟨hto, hfrom⟩
  · exact hR x hold
  · exact hv (TransGen.trans_right hfrom hto)

/-! ## Other parents and children

Every change of the edges is a `rewired` ontology: the concepts stay, with what else they declare
and with what they inherit, and each names other parents and children.
-/

variable {children parents : String → NameSet → NameSet}

/-- An ontology whose concepts name other parents and children. -/
def rewired (o : Ontology) (children parents : String → NameSet → NameSet) : Ontology :=
  { o with concepts := o.concepts.mapValues fun n d =>
      { d with children := children n d.children, parents := parents n d.parents } }

theorem get?_rewired : (o.rewired children parents).concepts.get? x =
    (o.concepts.get? x).map fun d =>
      { d with children := children x d.children, parents := parents x d.parents } :=
  Table.get?_mapValues _ _ _

theorem hasConcept_rewired : (o.rewired children parents).hasConcept x = o.hasConcept x :=
  Table.contains_mapValues _ _ _

theorem child_rewired : (o.rewired children parents).Child p q ↔
    ∃ d, o.concepts.get? p = some d ∧ (children p d.children).has q = true ∧
      o.hasConcept q = true := by
  rw [child_iff, get?_rewired, hasConcept_rewired]
  constructor
  · rintro ⟨d', hd', hhas, hq⟩
    obtain ⟨d, hd, rfl⟩ := Option.map_eq_some_iff.mp hd'
    exact ⟨d, hd, hhas, hq⟩
  · rintro ⟨d, hd, hhas, hq⟩
    exact ⟨_, by rw [hd]; rfl, hhas, hq⟩

theorem Linked.rewired (ho : o.Linked)
    (hedges : ∀ {p q : String} {dp dq : Concept}, o.concepts.get? p = some dp →
      o.concepts.get? q = some dq →
      (children p dp.children).has q = (parents q dq.parents).has p)
    (hacyclic : ∀ x, ¬ TransGen (o.rewired children parents).Child x x) :
    (o.rewired children parents).Linked where
  names {name d'} hd' := by
    rw [get?_rewired] at hd'
    obtain ⟨d, hd, rfl⟩ := Option.map_eq_some_iff.mp hd'
    exact ho.names (d := d) hd
  edges {p q dp' dq'} hp' hq' := by
    rw [get?_rewired] at hp' hq'
    obtain ⟨dp, hp, rfl⟩ := Option.map_eq_some_iff.mp hp'
    obtain ⟨dq, hq, rfl⟩ := Option.map_eq_some_iff.mp hq'
    exact hedges hp hq
  acyclic := hacyclic

/-- A concept that names the same parents as before stays settled. -/
theorem SettledAt.rewired (hx : ∀ d, o.concepts.get? x = some d → parents x d.parents = d.parents)
    (h : o.SettledAt x) : (o.rewired children parents).SettledAt x := by
  refine SettledAt.congr ?_ (fun _ _ p _ => ?_) h
  · rw [get?_rewired, Option.map_map]
    cases hd : o.concepts.get? x with
    | none => rfl
    | some d => simp [hx d hd]
  · rw [get?_rewired, Option.map_map]
    rfl


theorem rewired_rewired {children' parents' : String → NameSet → NameSet} :
    (o.rewired children parents).rewired children' parents' =
      o.rewired (fun n s => children' n (children n s)) fun n s => parents' n (parents n s) := by
  have hconcepts : ((o.rewired children parents).rewired children' parents').concepts =
      (o.rewired (fun n s => children' n (children n s))
        fun n s => parents' n (parents n s)).concepts := by
    refine Table.ext_get? fun x => ?_
    rw [get?_rewired, get?_rewired, get?_rewired, Option.map_map]
    rfl
  exact congrArg (fun t => ({ o with concepts := t } : Ontology)) hconcepts

/-- What keeps the edges of every concept keeps the ontology. -/
theorem rewired_eq_self (h : ∀ x d, o.concepts.get? x = some d →
    children x d.children = d.children ∧ parents x d.parents = d.parents) :
    o.rewired children parents = o := by
  refine congrArg (fun t => ({ o with concepts := t } : Ontology)) (Table.ext_get? fun x => ?_)
  rw [Table.get?_mapValues]
  cases hd : o.concepts.get? x with
  | none => rfl
  | some d =>
      obtain ⟨hchildren, hparents⟩ := h x d hd
      rw [Option.map_some, hchildren, hparents]

theorem rewired_id (o : Ontology) : (o.rewired (fun _ s => s) fun _ s => s) = o :=
  rewired_eq_self fun _ _ _ => ⟨rfl, rfl⟩

/-- What is declared decides what is declared with other edges. -/
theorem declared_rewired_congr {o' : Ontology} (h : o.declared = o'.declared) :
    (o.rewired children parents).declared = (o'.rewired children parents).declared := by
  have hget : ∀ (o : Ontology) x, (o.rewired children parents).declared.get? x =
      (o.declared.get? x).map fun d =>
        { d with children := children x d.children, parents := parents x d.parents } := by
    intro o x
    rw [get?_declared, get?_rewired, get?_declared, Option.map_map, Option.map_map]
    rfl
  refine Table.ext_get? fun x => ?_
  rw [hget, hget, h]

theorem modifyConcept_eq_rewired (f g : NameSet → NameSet) (o : Ontology) (name : String) :
    (o.modifyConcept name fun d =>
        { d with children := f d.children, parents := g d.parents }) =
      o.rewired (fun n s => if n = name then f s else s)
        fun n s => if n = name then g s else s := by
  refine congrArg (fun t => ({ o with concepts := t } : Ontology)) (Table.ext_get? fun x => ?_)
  rw [Table.get?_modify, Table.get?_mapValues]
  by_cases hx : x = name
  · simp only [if_pos hx]
  · simp only [if_neg hx]
    exact Option.map_id'.symm

/-- Changing the edges of one concept after the other, when changing them twice is the same as
once. -/
theorem foldl_modifyConcept_eq_rewired {f g : NameSet → NameSet} (hf : ∀ s, f (f s) = f s)
    (hg : ∀ s, g (g s) = g s) (names : List String) (o : Ontology) :
    names.foldl (fun o p => o.modifyConcept p fun d =>
        { d with children := f d.children, parents := g d.parents }) o =
      o.rewired (fun n s => if n ∈ names then f s else s)
        fun n s => if n ∈ names then g s else s := by
  induction names generalizing o with
  | nil => exact (rewired_id o).symm
  | cons name rest ih =>
      rw [List.foldl_cons, modifyConcept_eq_rewired, ih, rewired_rewired]
      congr 1 <;> funext n s <;> by_cases hname : n = name <;> by_cases hrest : n ∈ rest <;>
        simp [hname, hrest, hf, hg]

/-! ## One edge more or less -/

/-- An ontology with an edge from a parent to a child, declared at those of its ends that exist. -/
def joined (o : Ontology) (child parent : String) : Ontology :=
  (o.modifyConcept child fun c => { c with parents := c.parents.add parent }).modifyConcept parent
    fun p => { p with children := p.children.add child }

/-- An ontology without an edge from a parent to a child. -/
def parted (o : Ontology) (child parent : String) : Ontology :=
  (o.modifyConcept child fun c => { c with parents := c.parents.remove parent }).modifyConcept parent
    fun p => { p with children := p.children.remove child }

theorem joined_eq (o : Ontology) (child parent : String) : o.joined child parent =
    o.rewired (fun n s => if n = parent then s.add child else s)
      fun n s => if n = child then s.add parent else s := by
  have hchild := modifyConcept_eq_rewired (fun s => s) (fun s => s.add parent) o child
  have hparent := modifyConcept_eq_rewired (fun s => s.add child) (fun s => s)
    (o.modifyConcept child fun c => { c with parents := c.parents.add parent }) parent
  refine hparent.trans ?_
  rw [hchild, rewired_rewired]
  simp only [ite_self]

theorem parted_eq (o : Ontology) (child parent : String) : o.parted child parent =
    o.rewired (fun n s => if n = parent then s.remove child else s)
      fun n s => if n = child then s.remove parent else s := by
  have hchild := modifyConcept_eq_rewired (fun s => s) (fun s => s.remove parent) o child
  have hparent := modifyConcept_eq_rewired (fun s => s.remove child) (fun s => s)
    (o.modifyConcept child fun c => { c with parents := c.parents.remove parent }) parent
  refine hparent.trans ?_
  rw [hchild, rewired_rewired]
  simp only [ite_self]

/-- The one new edge. -/
theorem child_joined (h : (o.joined child parent).Child p q) :
    o.Child p q ∨ p = parent ∧ q = child := by
  rw [joined_eq] at h
  obtain ⟨d, hd, hhas, hq⟩ := child_rewired.mp h
  by_cases hp : p = parent
  · rw [if_pos hp, KeySet.has_add, Bool.or_eq_true, decide_eq_true_eq] at hhas
    rcases hhas with hchild | hold
    · exact Or.inr ⟨hp, hchild⟩
    · exact Or.inl (child_iff.mpr ⟨d, hd, hold, hq⟩)
  · rw [if_neg hp] at hhas
    exact Or.inl (child_iff.mpr ⟨d, hd, hhas, hq⟩)

/-- An edge to a parent that is neither the child nor found below it makes no circle. -/
theorem Linked.joined (ho : o.Linked)
    (hcheck : ¬ (child = parent ∨ (o.descendants child).has parent = true)) :
    (o.joined child parent).Linked := by
  have hne : parent ≠ child := fun h => hcheck (Or.inl h.symm)
  have hbelow : ¬ TransGen o.Child child parent := fun h =>
    hcheck (Or.inr (has_descendants h hne))
  -- a path down from the child never takes the new edge, as it would have to meet the parent first
  have hpath : ∀ y, TransGen (o.joined child parent).Child child y → TransGen o.Child child y := by
    intro y hy
    induction hy with
    | single hedge =>
        rcases child_joined hedge with hold | ⟨hself, -⟩
        · exact TransGen.single hold
        · exact absurd hself.symm hne
    | tail _ hedge ih =>
        rcases child_joined hedge with hold | ⟨hparent, -⟩
        · exact ih.tail hold
        · exact absurd (hparent ▸ ih) hbelow
  have hacyclic := acyclic_of_vertex ho.acyclic (fun h => ho.acyclic child (hpath child h))
    fun p q hedge _ hq => (child_joined hedge).resolve_right fun h => hq h.2
  rw [joined_eq] at hacyclic ⊢
  refine ho.rewired (fun {p q dp dq} hp hq => ?_) hacyclic
  -- both ends of an edge change together, and only those of the new one
  have hold := ho.edges hp hq
  by_cases hparent : p = parent
  · by_cases hchild : q = child
    · simp [hparent, hchild]
    · rw [if_pos hparent, if_neg hchild, KeySet.has_add, decide_eq_false hchild, Bool.false_or, hold]
  · by_cases hchild : q = child
    · rw [if_neg hparent, if_pos hchild, KeySet.has_add, decide_eq_false hparent, Bool.false_or,
        hold]
    · rw [if_neg hparent, if_neg hchild, hold]

/-- Without new edges there are no new circles. -/
theorem Linked.parted (ho : o.Linked) : (o.parted child parent).Linked := by
  rw [parted_eq]
  refine ho.rewired (fun {p q dp dq} hp hq => ?_) fun x hx => ho.acyclic x ?_
  · have hold := ho.edges hp hq
    by_cases hparent : p = parent
    · by_cases hchild : q = child
      · simp [hparent, hchild]
      · rw [if_pos hparent, if_neg hchild, KeySet.has_remove, decide_eq_false hchild, Bool.not_false,
          Bool.true_and, hold]
    · by_cases hchild : q = child
      · rw [if_neg hparent, if_pos hchild, KeySet.has_remove, decide_eq_false hparent,
          Bool.not_false, Bool.true_and, hold]
      · rw [if_neg hparent, if_neg hchild, hold]
  · refine TransGen.mono (fun p q hedge => ?_) _ _ hx
    obtain ⟨d, hd, hhas, hq⟩ := child_rewired.mp hedge
    refine child_iff.mpr ⟨d, hd, ?_, hq⟩
    by_cases hparent : p = parent
    · rw [if_pos hparent, KeySet.has_remove, Bool.and_eq_true] at hhas
      exact hhas.2
    · rwa [if_neg hparent] at hhas

/-- An edge unsettles the child only, before the walk. -/
theorem settledAt_joined (hs : o.SettledAt x) (hx : x ≠ child) :
    (o.joined child parent).SettledAt x := by
  rw [joined_eq]
  exact hs.rewired fun d _ => if_neg hx

theorem settledAt_parted (hs : o.SettledAt x) (hx : x ≠ child) :
    (o.parted child parent).SettledAt x := by
  rw [parted_eq]
  exact hs.rewired fun d _ => if_neg hx

/-- What changes neither end of an edge changes nothing: the two ends agree on whether it is
there. -/
theorem Linked.rewired_ends_eq_self (ho : o.Linked) (hc : o.concepts.get? child = some c)
    {f : NameSet → String → NameSet}
    (hf : ∀ s k, s.has k = c.parents.has parent → f s k = s) :
    (o.rewired (fun n s => if n = parent then f s child else s)
      fun n s => if n = child then f s parent else s) = o := by
  refine rewired_eq_self fun x d hd => ⟨?_, ?_⟩
  · by_cases hx : x = parent
    · subst hx
      rw [if_pos rfl, hf _ _ (ho.edges hd hc)]
    · rw [if_neg hx]
  · by_cases hx : x = child
    · subst hx
      rw [hc, Option.some.injEq] at hd
      rw [if_pos rfl, hf _ _ (by rw [hd])]
    · rw [if_neg hx]

/-- An edge that is there already changes nothing. -/
theorem Linked.joined_eq_self (ho : o.Linked) (hc : o.concepts.get? child = some c)
    (hparent : c.parents.has parent = true) : o.joined child parent = o := by
  rw [joined_eq]
  exact ho.rewired_ends_eq_self hc fun s k h => KeySet.add_of_has (h.trans hparent)

/-- An edge that is not there cannot be removed. -/
theorem Linked.parted_eq_self (ho : o.Linked) (hc : o.concepts.get? child = some c)
    (hparent : c.parents.has parent = false) : o.parted child parent = o := by
  rw [parted_eq]
  exact ho.rewired_ends_eq_self hc fun s k h => KeySet.remove_of_not_has (h.trans hparent)

/-- An edge that was not there is gone at both ends when it is removed. -/
theorem Linked.parted_joined (ho : o.Linked) (hc : o.concepts.get? child = some c)
    (hparent : c.parents.has parent = false) :
    (o.joined child parent).parted child parent = o := by
  have hends : (o.joined child parent).parted child parent =
      o.rewired (fun n s => if n = parent then (s.add child).remove child else s)
        fun n s => if n = child then (s.add parent).remove parent else s := by
    rw [joined_eq, parted_eq, rewired_rewired]
    congr 1 <;> funext n s <;> split <;> rfl
  rw [hends]
  exact ho.rewired_ends_eq_self hc fun s k h => KeySet.remove_add (h.trans hparent)

/-! ## One concept more -/

/-- An ontology with one more concept, whose edges are declared at both ends. -/
def added (o : Ontology) (c : Concept) : Ontology :=
  { o.link c with concepts := (o.link c).concepts.insert c.name c }

theorem link_eq (o : Ontology) (c : Concept) : o.link c =
    o.rewired (fun n s => if c.parents.has n = true then s.add c.name else s)
      fun n s => if c.children.has n = true then s.add c.name else s := by
  have hadd : ∀ s : NameSet, (s.add c.name).add c.name = s.add c.name := fun s =>
    KeySet.add_of_has (by simp)
  have hup := foldl_modifyConcept_eq_rewired (f := fun s => s.add c.name) (g := fun s => s) hadd
    (fun _ => rfl) c.parents.toList o
  have hdown := fun o => foldl_modifyConcept_eq_rewired (f := fun s => s)
    (g := fun s => s.add c.name) (fun _ => rfl) hadd c.children.toList o
  refine (hdown _).trans ?_
  rw [hup, rewired_rewired]
  simp only [ite_self, KeySet.mem_toList_iff]

theorem get?_added : (o.added c).concepts.get? x =
    if x = c.name then some c else (o.link c).concepts.get? x :=
  Table.get?_insert _ _ _ _

theorem hasConcept_added (hx : x ≠ c.name) : (o.added c).hasConcept x = o.hasConcept x := by
  unfold hasConcept added Table.contains
  rw [Table.get?_insert, if_neg hx, link_eq, get?_rewired, Option.isSome_map]

/-- A concept names the existing concepts that name it. -/
structure Fused (o : Ontology) (c : Concept) : Prop where
  parents {p : String} {d : Concept} (hd : o.concepts.get? p = some d)
    (hchild : d.children.has c.name = true) : c.parents.has p = true
  children {p : String} {d : Concept} (hd : o.concepts.get? p = some d)
    (hparent : d.parents.has c.name = true) : c.children.has p = true

theorem Linked.fused (ho : o.Linked) (c : Concept) : o.Fused (o.fused c) where
  parents {p d} hd hchild := by
    show (c.parents.addAll _).has p = true
    rw [KeySet.has_addAll, Bool.or_eq_true, decide_eq_true_eq]
    refine Or.inl (List.mem_map.mpr ⟨d, List.mem_filter.mpr ⟨?_, hchild⟩, ho.names hd⟩)
    exact Table.mem_values_iff.mpr ⟨p, hd⟩
  children {p d} hd hparent := by
    show (c.children.addAll _).has p = true
    rw [KeySet.has_addAll, Bool.or_eq_true, decide_eq_true_eq]
    refine Or.inl (List.mem_map.mpr ⟨d, List.mem_filter.mpr ⟨?_, hparent⟩, ho.names hd⟩)
    exact Table.mem_values_iff.mpr ⟨p, hd⟩

/-- The new concept stands among the children of its parents, and of no other concept. -/
theorem Fused.has_link_children (hfused : o.Fused c) (hd : o.concepts.get? p = some d) :
    (if c.parents.has p = true then d.children.add c.name else d.children).has c.name =
      c.parents.has p := by
  cases hparent : c.parents.has p with
  | true => rw [if_pos rfl, KeySet.has_add, decide_eq_true rfl, Bool.true_or]
  | false =>
      rw [if_neg Bool.false_ne_true]
      cases hchild : d.children.has c.name with
      | true => rw [← hparent, hfused.parents hd hchild]
      | false => rfl

theorem Fused.has_link_parents (hfused : o.Fused c) (hd : o.concepts.get? p = some d) :
    (if c.children.has p = true then d.parents.add c.name else d.parents).has c.name =
      c.children.has p := by
  cases hchild : c.children.has p with
  | true => rw [if_pos rfl, KeySet.has_add, decide_eq_true rfl, Bool.true_or]
  | false =>
      rw [if_neg Bool.false_ne_true]
      cases hparent : d.parents.has c.name with
      | true => rw [← hchild, hfused.children hd hparent]
      | false => rfl

theorem child_added_old (hp : p ≠ c.name) (hq : q ≠ c.name) (h : (o.added c).Child p q) :
    o.Child p q := by
  obtain ⟨d', hd', hhas, hexists⟩ := child_iff.mp h
  rw [get?_added, if_neg hp, link_eq, get?_rewired] at hd'
  obtain ⟨d, hd, rfl⟩ := Option.map_eq_some_iff.mp hd'
  rw [hasConcept_added hq] at hexists
  refine child_iff.mpr ⟨d, hd, ?_, hexists⟩
  by_cases hparent : c.parents.has p = true
  · simpa [hparent, hq] using hhas
  · simpa [hparent] using hhas

theorem child_added_from (h : (o.added c).Child c.name q) : c.children.has q = true := by
  obtain ⟨d, hd, hhas, -⟩ := child_iff.mp h
  rw [get?_added, if_pos rfl, Option.some.injEq] at hd
  rw [hd, hhas]

theorem Fused.child_added_to (hfused : o.Fused c) (hp : p ≠ c.name)
    (h : (o.added c).Child p c.name) : c.parents.has p = true ∧ o.hasConcept p = true := by
  obtain ⟨d', hd', hhas, -⟩ := child_iff.mp h
  rw [get?_added, if_neg hp, link_eq, get?_rewired] at hd'
  obtain ⟨d, hd, rfl⟩ := Option.map_eq_some_iff.mp hd'
  exact ⟨(hfused.has_link_children hd).symm.trans hhas, hasConcept_of_get? hd⟩

/-- What the check of a new concept excludes: that it is a neighbour of itself, and that one of its
children is a parent of it or lies above one. -/
theorem Linked.closesCycle_iff (ho : o.Linked) :
    o.closesCycle c = true ↔ c.parents.has c.name = true ∨ c.children.has c.name = true ∨
      ∃ p q, c.parents.has p = true ∧ o.hasConcept p = true ∧ c.children.has q = true ∧
        ReflTransGen o.Child q p := by
  have hstep : ∀ q (s : NameSet) a, ((s.add a).union (o.ancestors a)).has q = true ↔
      s.has q = true ∨ ReflTransGen o.Child q a := by
    intro q s a
    rw [KeySet.has_union, KeySet.has_add, Bool.or_eq_true, Bool.or_eq_true, decide_eq_true_eq,
      or_assoc, or_left_comm, ho.has_ancestors_iff, Relation.reflTransGen_iff_eq_or_transGen,
      @eq_comm _ a q]
  unfold closesCycle
  rw [Bool.or_eq_true, Bool.or_eq_true, or_assoc, List.any_eq_true]
  refine or_congr_right (or_congr_right ⟨?_, ?_⟩)
  · rintro ⟨q, hchild, habove⟩
    obtain ⟨p, hparent, hpath⟩ :=
      ((KeySet.has_foldl (hstep q) _ ∅).mp habove).resolve_left Bool.false_ne_true
    obtain ⟨hparent, hp⟩ := List.mem_filter.mp hparent
    exact ⟨p, q, KeySet.mem_toList_iff.mp hparent, hp, KeySet.mem_toList_iff.mp hchild, hpath⟩
  · rintro ⟨p, q, hparent, hp, hchild, hpath⟩
    exact ⟨q, KeySet.mem_toList_iff.mpr hchild, (KeySet.has_foldl (hstep q) _ ∅).mpr
      (Or.inr ⟨p, List.mem_filter.mpr ⟨KeySet.mem_toList_iff.mpr hparent, hp⟩, hpath⟩)⟩

theorem not_own_neighbour (hcheck : o.closesCycle c = false) :
    c.parents.has c.name = false ∧ c.children.has c.name = false := by
  unfold closesCycle at hcheck
  rw [Bool.or_eq_false_iff, Bool.or_eq_false_iff] at hcheck
  exact hcheck.1

/-- Whatever comes to lie below a new concept lay below one of its children before. -/
theorem Linked.path_added (ho : o.Linked) (hfused : o.Fused c) (hcheck : o.closesCycle c = false)
    {y : String} (hy : TransGen (o.added c).Child c.name y) :
    y ≠ c.name ∧ ∃ d, c.children.has d = true ∧ ReflTransGen o.Child d y := by
  induction hy with
  | @single y hedge =>
      have hchild := child_added_from hedge
      refine ⟨?_, y, hchild, ReflTransGen.refl⟩
      rintro rfl
      rw [(not_own_neighbour hcheck).2] at hchild
      nomatch hchild
  | @tail y z _ hedge ih =>
      obtain ⟨hy, d, hchild, hreach⟩ := ih
      -- the path cannot come back, since its last step would start at a parent
      have hz : z ≠ c.name := by
        rintro rfl
        obtain ⟨hparent, hexists⟩ := hfused.child_added_to hy hedge
        have hcycle := ho.closesCycle_iff.mpr
          (Or.inr (Or.inr ⟨y, d, hparent, hexists, hchild, hreach⟩))
        rw [hcycle] at hcheck
        nomatch hcheck
      exact ⟨hz, d, hchild, hreach.tail (child_added_old hy hz hedge)⟩

theorem Linked.edges_added (ho : o.Linked) (hfused : o.Fused c) (hcheck : o.closesCycle c = false)
    {dp dq : Concept} (hp : (o.added c).concepts.get? p = some dp)
    (hq : (o.added c).concepts.get? q = some dq) : dp.children.has q = dq.parents.has p := by
  rw [get?_added] at hp hq
  by_cases hpname : p = c.name <;> by_cases hqname : q = c.name
  · obtain ⟨hparent, hchild⟩ := not_own_neighbour hcheck
    rw [if_pos hpname, Option.some.injEq] at hp
    rw [if_pos hqname, Option.some.injEq] at hq
    rw [← hp, ← hq, hpname, hqname, hparent, hchild]
  · rw [if_pos hpname, Option.some.injEq] at hp
    rw [if_neg hqname, link_eq, get?_rewired] at hq
    obtain ⟨e, he, rfl⟩ := Option.map_eq_some_iff.mp hq
    rw [← hp, hpname]
    exact (hfused.has_link_parents he).symm
  · rw [if_neg hpname, link_eq, get?_rewired] at hp
    rw [if_pos hqname, Option.some.injEq] at hq
    obtain ⟨e, he, rfl⟩ := Option.map_eq_some_iff.mp hp
    rw [← hq, hqname]
    exact hfused.has_link_children he
  · rw [if_neg hpname, link_eq, get?_rewired] at hp
    rw [if_neg hqname, link_eq, get?_rewired] at hq
    obtain ⟨ep, hep, rfl⟩ := Option.map_eq_some_iff.mp hp
    obtain ⟨eq, heq, rfl⟩ := Option.map_eq_some_iff.mp hq
    have hleft : (if c.parents.has p = true then ep.children.add c.name
        else ep.children).has q = ep.children.has q := by
      split <;> simp [hqname]
    have hright : (if c.children.has q = true then eq.parents.add c.name
        else eq.parents).has p = eq.parents.has p := by
      split <;> simp [hpname]
    rw [hleft, hright, ho.edges hep heq]

/-- A new concept that is not found to be its own ancestor closes no circle. -/
theorem Linked.added (ho : o.Linked) (hfused : o.Fused c) (hcheck : o.closesCycle c = false) :
    (o.added c).Linked where
  names {name d} hd := by
    rw [get?_added] at hd
    by_cases hname : name = c.name
    · rw [if_pos hname, Option.some.injEq] at hd
      rw [← hd, hname]
    · rw [if_neg hname, link_eq, get?_rewired] at hd
      obtain ⟨e, he, rfl⟩ := Option.map_eq_some_iff.mp hd
      exact ho.names (d := e) he
  edges hp hq := ho.edges_added hfused hcheck hp hq
  acyclic :=
    acyclic_of_vertex ho.acyclic (fun h => (ho.path_added hfused hcheck h).1 rfl)
      fun p q hedge hp hq => child_added_old hp hq hedge

/-- A new concept unsettles, before the walk, only those that it has for children. -/
theorem Fused.settledAt_added (hfused : o.Fused c) (hs : o.SettledAt x) (hx : x ≠ c.name)
    (hchild : c.children.has x = false) : (o.added c).SettledAt x := by
  have hlink : (o.link c).SettledAt x := by
    rw [link_eq]
    refine hs.rewired fun d _ => if_neg ?_
    rw [hchild]
    exact Bool.false_ne_true
  refine hlink.congr (by rw [get?_added, if_neg hx]) fun d hd p hp => ?_
  rw [get?_added, if_neg]
  rintro rfl
  rw [link_eq, get?_rewired] at hd
  obtain ⟨e, he, rfl⟩ := Option.map_eq_some_iff.mp hd
  rw [← hfused.has_link_parents he] at hchild
  rw [hchild] at hp
  nomatch hp

/-! ## One concept less -/

/-- An ontology without a concept and its edges. -/
def removed (o : Ontology) (name : String) (c : Concept) : Ontology :=
  ({ o with concepts := o.concepts.erase name } : Ontology).unlink name c

theorem unlink_eq (o : Ontology) (name : String) (c : Concept) : o.unlink name c =
    o.rewired (fun n s => if c.parents.has n = true then s.remove name else s)
      fun n s => if c.children.has n = true then s.remove name else s := by
  have hremove : ∀ s : NameSet, (s.remove name).remove name = s.remove name := fun s =>
    KeySet.remove_of_not_has (by simp)
  have hup := foldl_modifyConcept_eq_rewired (f := fun s => s.remove name) (g := fun s => s) hremove
    (fun _ => rfl) c.parents.toList o
  have hdown := fun o => foldl_modifyConcept_eq_rewired (f := fun s => s)
    (g := fun s => s.remove name) (fun _ => rfl) hremove c.children.toList o
  refine (hdown _).trans ?_
  rw [hup, rewired_rewired]
  simp only [ite_self, KeySet.mem_toList_iff]

theorem get?_erase_concept :
    ({ o with concepts := o.concepts.erase name } : Ontology).concepts.get? x =
      if x = name then none else o.concepts.get? x :=
  Table.get?_erase _ _ _

theorem get?_removed : (o.removed name c).concepts.get? x =
    if x = name then none
    else (o.concepts.get? x).map fun d => { d with
      children := if c.parents.has x = true then d.children.remove name else d.children
      parents := if c.children.has x = true then d.parents.remove name else d.parents } := by
  unfold removed
  rw [unlink_eq, get?_rewired, get?_erase_concept]
  by_cases hx : x = name
  · rw [if_pos hx, if_pos hx, Option.map_none]
  · rw [if_neg hx, if_neg hx]

theorem child_removed (h : (o.removed name c).Child p q) : o.Child p q := by
  obtain ⟨d', hd', hhas, hq⟩ := child_iff.mp h
  obtain ⟨e', he'⟩ := hasConcept_iff.mp hq
  rw [get?_removed] at hd' he'
  by_cases hp : p = name
  · rw [if_pos hp] at hd'
    nomatch hd'
  by_cases hq : q = name
  · rw [if_pos hq] at he'
    nomatch he'
  rw [if_neg hp] at hd'
  rw [if_neg hq] at he'
  obtain ⟨d, hd, rfl⟩ := Option.map_eq_some_iff.mp hd'
  obtain ⟨e, he, -⟩ := Option.map_eq_some_iff.mp he'
  refine child_iff.mpr ⟨d, hd, ?_, hasConcept_of_get? he⟩
  by_cases hparent : c.parents.has p = true
  · simpa [hparent, hq] using hhas
  · simpa [hparent] using hhas

theorem Linked.removed (ho : o.Linked) (c : Concept) : (o.removed name c).Linked where
  names {x d'} hd' := by
    rw [get?_removed] at hd'
    by_cases hx : x = name
    · rw [if_pos hx] at hd'
      nomatch hd'
    · rw [if_neg hx] at hd'
      obtain ⟨d, hd, rfl⟩ := Option.map_eq_some_iff.mp hd'
      exact ho.names (d := d) hd
  edges {p q dp' dq'} hp' hq' := by
    rw [get?_removed] at hp' hq'
    by_cases hp : p = name
    · rw [if_pos hp] at hp'
      nomatch hp'
    by_cases hq : q = name
    · rw [if_pos hq] at hq'
      nomatch hq'
    rw [if_neg hp] at hp'
    rw [if_neg hq] at hq'
    obtain ⟨dp, hdp, rfl⟩ := Option.map_eq_some_iff.mp hp'
    obtain ⟨dq, hdq, rfl⟩ := Option.map_eq_some_iff.mp hq'
    have hold := ho.edges hdp hdq
    have hleft : (if c.parents.has p = true then dp.children.remove name
        else dp.children).has q = dp.children.has q := by
      split <;> simp [hq]
    have hright : (if c.children.has q = true then dq.parents.remove name
        else dq.parents).has p = dq.parents.has p := by
      split <;> simp [hp]
    rw [hleft, hright, hold]
  acyclic x hx := ho.acyclic x (TransGen.mono (fun _ _ => child_removed) _ _ hx)

/-- A concept that is removed unsettles, before the walks, only those that it has for children. -/
theorem Linked.settledAt_removed (ho : o.Linked) (hc : o.concepts.get? name = some c)
    (hs : o.SettledAt x) (hchild : c.children.has x = false) : (o.removed name c).SettledAt x := by
  intro e' he'
  have hx : x ≠ name := by
    rintro rfl
    rw [get?_removed, if_pos rfl] at he'
    nomatch he'
  refine SettledAt.congr (o := o) ?_ (fun d hd p hp => ?_) hs e' he'
  · rw [get?_removed, if_neg hx, Option.map_map]
    simp only [Function.comp_def, hchild, Bool.false_eq_true, if_false]
  · have hpname : p ≠ name := by
      rintro rfl
      rw [← ho.edges hc hd, hchild] at hp
      nomatch hp
    rw [get?_removed, if_neg hpname, Option.map_map]
    rfl

end Credence.Ontology

end Edges
