import Credence.Proofs.Ontology.Memberships

/-!
# The order in which concepts arrive

Concepts may name each other before they exist, so whichever of two is added first has an edge that
does not count yet, and the other one learns of it when it is added (`Ontology.fused`).  Either way
both end up with the same parents and children, and so does everything that either of them names:
what is declared after two additions does not depend on their order (`declared_admitted_comm`).

An addition is refused only for what it would leave behind in any order.  A name is taken or not, a
property is null or not, and a circle that a concept closes among some of the others is a circle
among all of them.  So two additions that go through go through the other way round, and since
everything that is not declared follows from what is, they lead to the same ontology.  A permutation
is a sequence of such exchanges.
-/

section Arrival

open Relation (TransGen ReflTransGen)

namespace Credence

namespace Ontology

/-- The other way. -/
def Reach.opposite : Reach → Reach
  | .down => .up
  | .up => .down

@[simp] theorem Reach.opposite_opposite (reach : Reach) : reach.opposite.opposite = reach := by
  cases reach <;> rfl

end Ontology

namespace Concept

/-- The edges of a concept in one way: to its children or to its parents. -/
def edges (c : Concept) : Ontology.Reach → NameSet
  | .down => c.children
  | .up => c.parents

/-- A concept with the edges that another one declares to it. -/
def meeting (d c : Concept) : Concept :=
  { d with
    children := if c.parents.has d.name = true then d.children.add c.name else d.children
    parents := if c.children.has d.name = true then d.parents.add c.name else d.parents }

variable {d c : Concept} {x : String}

theorem has_edges_meeting (reach : Ontology.Reach) :
    ((d.meeting c).edges reach).has x = true ↔
      (d.edges reach).has x = true ∨ x = c.name ∧ (c.edges reach.opposite).has d.name = true := by
  cases reach with
  | down =>
      show (if c.parents.has d.name = true then d.children.add c.name else d.children).has x =
        true ↔ d.children.has x = true ∨ x = c.name ∧ c.parents.has d.name = true
      by_cases hparent : c.parents.has d.name = true
      · simp [hparent, or_comm]
      · simp [hparent]
  | up =>
      show (if c.children.has d.name = true then d.parents.add c.name else d.parents).has x =
        true ↔ d.parents.has x = true ∨ x = c.name ∧ c.children.has d.name = true
      by_cases hchild : c.children.has d.name = true
      · simp [hchild, or_comm]
      · simp [hchild]

/-- A concept without its edges. -/
def unlinked (c : Concept) : Concept := { c with children := ∅, parents := ∅ }

/-- A concept is what it is without its edges together with these. -/
theorem eq_of_edges {c' : Concept} (hunlinked : c.unlinked = c'.unlinked)
    (hedges : ∀ reach x, (c.edges reach).has x = true ↔ (c'.edges reach).has x = true) :
    c = c' := by
  have hchildren : c.children = c'.children :=
    KeySet.ext_has fun x => Bool.eq_iff_iff.mpr (hedges .down x)
  have hparents : c.parents = c'.parents :=
    KeySet.ext_has fun x => Bool.eq_iff_iff.mpr (hedges .up x)
  have h : { c.unlinked with children := c.children, parents := c.parents } =
      { c'.unlinked with children := c'.children, parents := c'.parents } := by
    rw [hunlinked, hchildren, hparents]
  exact h

/-- It does not matter in which order a concept meets two others. -/
theorem meeting_comm (d a b : Concept) : (d.meeting a).meeting b = (d.meeting b).meeting a := by
  refine eq_of_edges rfl fun reach x => ?_
  have hname : ∀ c : Concept, (d.meeting c).name = d.name := fun _ => rfl
  rw [has_edges_meeting, has_edges_meeting, has_edges_meeting, has_edges_meeting, hname, hname,
    or_right_comm]

end Concept

namespace Ontology

variable {o o' : Ontology} {a b c d : Concept} {x y : String}

/-! ## One addition -/

/-- What has to hold of a concept for it to be added. -/
structure Admits (o : Ontology) (c : Concept) : Prop where
  new : o.hasConcept c.name = false
  defined : (c.ownProperties.entries.find? fun e => e.2.isNull) = none
  acyclic : o.closesCycle (o.fused c) = false

/-- An ontology with one more concept and everything that follows from it. -/
def admitted (o : Ontology) (c : Concept) : Ontology :=
  (o.added (o.fused c)).propagate c.name

/-- A concept is added exactly if it is admitted. -/
theorem exec_addConcept_eq_ok_iff :
    exec (addConcept c) o = (.ok (), o') ↔ o.Admits c ∧ o' = o.admitted c := by
  unfold addConcept
  rw [exec_bind_ok (exec_get o)]
  dsimp only
  by_cases hnew : o.hasConcept c.name = true
  · rw [if_pos hnew, exec_violates_bind]
    refine ⟨(fun h => nomatch h), fun h => ?_⟩
    rw [h.1.new] at hnew
    nomatch hnew
  rw [if_neg hnew]
  cases hnull : c.ownProperties.entries.find? fun e => e.2.isNull with
  | some e =>
      refine ⟨(fun h => nomatch h), fun h => ?_⟩
      have hdefined := h.1.defined
      rw [hnull] at hdefined
      nomatch hdefined
  | none =>
      dsimp only
      by_cases hcycle : o.closesCycle (o.fused c) = true
      · rw [if_pos hcycle]
        refine ⟨(fun h => nomatch h), fun h => ?_⟩
        rw [h.1.acyclic] at hcycle
        nomatch hcycle
      rw [if_neg hcycle]
      have hrun : exec (set (o.admitted c) : Change Unit) o = (.ok (), o.admitted c) := rfl
      constructor
      · intro h
        refine ⟨⟨Bool.eq_false_iff.mpr hnew, hnull, Bool.eq_false_iff.mpr hcycle⟩, ?_⟩
        exact (congrArg Prod.snd h).symm
      · rintro ⟨-, rfl⟩
        exact hrun

theorem declared_admitted : (o.admitted c).declared = (o.added (o.fused c)).declared :=
  declared_propagate _ _

theorem get?_relations_admitted (n : String) :
    ((o.admitted c).relations.get? n).map Relation.declared =
      (o.relations.get? n).map Relation.declared := by
  have hrelations : (o.added (o.fused c)).relations = o.relations := by
    rw [added, link_eq]
    rfl
  rw [admitted, get?_relations_propagate, hrelations]

/-! ## What is declared afterwards -/

/-- The edges of a concept that is about to be added: those that it declares itself and those that
existing concepts declare to it. -/
theorem Linked.has_edges_fused (ho : o.Linked) (reach : Reach) :
    ((o.fused c).edges reach).has y = true ↔ (c.edges reach).has y = true ∨
      ∃ d, o.concepts.get? y = some d ∧ (d.edges reach.opposite).has c.name = true := by
  have hmem : ∀ p : Concept → Bool, y ∈ (o.concepts.values.filter p).map (·.name) ↔
      ∃ d, o.concepts.get? y = some d ∧ p d = true := by
    intro p
    simp only [List.mem_map, List.mem_filter, Table.mem_values_iff]
    constructor
    · rintro ⟨d, ⟨⟨n, hd⟩, hp⟩, rfl⟩
      exact ⟨d, (ho.names hd).symm ▸ hd, hp⟩
    · rintro ⟨d, hd, hp⟩
      exact ⟨d, ⟨⟨y, hd⟩, hp⟩, ho.names hd⟩
  cases reach with
  | down =>
      show (c.children.addAll _).has y = true ↔ _
      rw [KeySet.has_addAll, Bool.or_eq_true, decide_eq_true_eq, hmem, or_comm]
      rfl
  | up =>
      show (c.parents.addAll _).has y = true ↔ _
      rw [KeySet.has_addAll, Bool.or_eq_true, decide_eq_true_eq, hmem, or_comm]
      rfl

theorem fused_congr (h : o.declared = o'.declared) (c : Concept) : o.fused c = o'.fused c := by
  have hnames : ∀ (o : Ontology) (p : Concept → Bool), (∀ d, p d.declared = p d) →
      (o.concepts.values.filter p).map (·.name) = (o.declared.values.filter p).map (·.name) := by
    intro o p hp
    have hvalues : o.declared.values = o.concepts.values.map Concept.declared := by
      simp only [declared, Table.values, Table.mapValues, List.map_map, Function.comp_def]
    rw [hvalues, List.filter_map, List.map_map, show p ∘ Concept.declared = p from funext hp]
    rfl
  unfold fused
  dsimp only
  rw [hnames o _ fun _ => rfl, hnames o _ fun _ => rfl, h, ← hnames o' _ fun _ => rfl,
    ← hnames o' _ fun _ => rfl]

/-- Existing concepts meet the one that is added. -/
theorem Linked.get?_link (ho : o.Linked) :
    (o.link c).concepts.get? x = (o.concepts.get? x).map (·.meeting c) := by
  rw [link_eq, get?_rewired]
  refine Option.map_congr fun d hd => ?_
  rw [Concept.meeting, ho.names hd]

/-- Existing concepts have declared already what the new one learns from them. -/
theorem Linked.meeting_fused (ho : o.Linked) (hd : o.concepts.get? x = some d) :
    d.meeting (o.fused c) = d.meeting c := by
  refine Concept.eq_of_edges rfl fun reach y => ?_
  rw [Concept.has_edges_meeting, Concept.has_edges_meeting, ho.has_edges_fused,
    Reach.opposite_opposite, ho.names hd]
  have hname : (o.fused c).name = c.name := rfl
  rw [hname]
  constructor
  · rintro (hold | ⟨rfl, hdeclared | ⟨e, he, hold⟩⟩)
    · exact Or.inl hold
    · exact Or.inr ⟨rfl, hdeclared⟩
    · rw [hd, Option.some.injEq] at he
      exact Or.inl (he ▸ hold)
  · exact Or.imp_right (And.imp_right Or.inl)

theorem Linked.get?_added_fused (ho : o.Linked) :
    (o.added (o.fused c)).concepts.get? x =
      if x = c.name then some (o.fused c) else (o.concepts.get? x).map (·.meeting c) := by
  rw [get?_added, ho.get?_link]
  exact if_congr Iff.rfl rfl (Option.map_congr fun d hd => ho.meeting_fused hd)

theorem Linked.get?_declared_admitted (ho : o.Linked) :
    (o.admitted c).declared.get? x =
      if x = c.name then some (o.fused c).declared else (o.declared.get? x).map (·.meeting c) := by
  rw [declared_admitted, get?_declared, get?_declared, ho.get?_added_fused]
  by_cases hx : x = c.name
  · rw [if_pos hx, if_pos hx, Option.map_some]
  · rw [if_neg hx, if_neg hx, Option.map_map, Option.map_map]
    rfl

theorem get?_of_not_hasConcept (h : o.hasConcept x = false) : o.concepts.get? x = none := by
  rwa [hasConcept, Table.contains, Option.isSome_eq_false_iff, Option.isNone_iff_eq_none] at h

/-- A concept that comes after another one learns the same from the others as before it, and meets
the other one. -/
theorem Linked.fused_admitted (ho : o.Linked) (ha : o.hasConcept a.name = false)
    (hb : o.hasConcept b.name = false) (hne : a.name ≠ b.name) (hadmitted : (o.admitted b).Linked) :
    (o.admitted b).fused a = (o.fused a).meeting b := by
  have hlinked : (o.added (o.fused b)).Linked :=
    hadmitted.congr (shape_eq_of_declared declared_admitted)
  rw [fused_congr declared_admitted]
  refine Concept.eq_of_edges rfl fun reach y => ?_
  have hname : (o.fused a).name = a.name := rfl
  rw [hlinked.has_edges_fused, Concept.has_edges_meeting, ho.has_edges_fused, hname, or_assoc,
    ho.get?_added_fused]
  refine or_congr_right ?_
  by_cases hy : y = b.name
  · -- none of the two is there yet to declare anything to the other
    simp [hy, get?_of_not_hasConcept ha, get?_of_not_hasConcept hb, ho.has_edges_fused]
  · simp [hy, hne, Concept.has_edges_meeting]

/-- What is declared after two additions does not depend on their order. -/
theorem Linked.declared_admitted_comm (ho : o.Linked) (ha : o.hasConcept a.name = false)
    (hb : o.hasConcept b.name = false) (hne : a.name ≠ b.name) (hoa : (o.admitted a).Linked)
    (hob : (o.admitted b).Linked) :
    ((o.admitted a).admitted b).declared = ((o.admitted b).admitted a).declared := by
  refine Table.ext_get? fun x => ?_
  rw [hoa.get?_declared_admitted, hob.get?_declared_admitted, ho.get?_declared_admitted,
    ho.get?_declared_admitted, ho.fused_admitted ha hb hne hob, ho.fused_admitted hb ha hne.symm hoa]
  by_cases hxa : x = a.name
  · rw [if_neg (hxa ▸ hne), if_pos hxa, if_pos hxa, Option.map_some]
    rfl
  by_cases hxb : x = b.name
  · rw [if_pos hxb, if_neg hxa, if_pos hxb, Option.map_some]
    rfl
  rw [if_neg hxb, if_neg hxa, if_neg hxa, if_neg hxb, Option.map_map, Option.map_map]
  exact congrArg (fun f => (o.declared.get? x).map f) (funext fun d => d.meeting_comm a b)

/-! ## Circles -/

/-- The concept that was added, with its edges. -/
theorem Linked.exists_admitted (ho : o.Linked) :
    ∃ e, (o.admitted c).concepts.get? c.name = some e ∧
      ∀ reach, e.edges reach = (o.fused c).edges reach := by
  have hget := ho.get?_declared_admitted (c := c) (x := c.name)
  rw [if_pos rfl, get?_declared] at hget
  obtain ⟨e, he, hdeclared⟩ := Option.map_eq_some_iff.mp hget
  refine ⟨e, he, fun reach => ?_⟩
  have hedges := congrArg (fun d => d.edges reach) hdeclared
  cases reach <;> exact hedges

theorem hasConcept_admitted_of_ne (hx : x ≠ c.name) :
    (o.admitted c).hasConcept x = o.hasConcept x := by
  rw [hasConcept_congr (shape_eq_of_declared declared_admitted)]
  exact hasConcept_added (c := o.fused c) hx

theorem Linked.hasConcept_admitted (ho : o.Linked) (hx : o.hasConcept x = true) :
    (o.admitted c).hasConcept x = true := by
  by_cases hname : x = c.name
  · obtain ⟨e, he, -⟩ := ho.exists_admitted (c := c)
    exact hasConcept_of_get? (hname ▸ he)
  · rwa [hasConcept_admitted_of_ne hname]

/-- No edge goes away when a concept is added. -/
theorem Linked.child_admitted (ho : o.Linked) (hc : o.hasConcept c.name = false)
    (h : o.Child x y) : (o.admitted c).Child x y := by
  obtain ⟨d, hd, hhas, hy⟩ := child_iff.mp h
  have hne : x ≠ c.name := by
    rintro rfl
    rw [hasConcept_of_get? hd] at hc
    nomatch hc
  rw [child_congr (shape_eq_of_declared declared_admitted)]
  refine child_iff.mpr ⟨d.meeting c, ?_, ?_, ?_⟩
  · rw [ho.get?_added_fused, if_neg hne, hd, Option.map_some]
  · exact (Concept.has_edges_meeting .down).mpr (Or.inl hhas)
  · rw [← hasConcept_congr (shape_eq_of_declared declared_admitted)]
    exact ho.hasConcept_admitted hy

/-- A concept after whose addition there is no circle closes none. -/
theorem Linked.closesCycle_of_admitted (ho : o.Linked) (hc : o.hasConcept c.name = false)
    (hadmitted : (o.admitted c).Linked) : o.closesCycle (o.fused c) = false := by
  obtain ⟨e, he, hedges⟩ := ho.exists_admitted (c := c)
  have hexists := hasConcept_of_get? he
  refine Bool.eq_false_iff.mpr fun hcycle => hadmitted.acyclic c.name ?_
  rcases ho.closesCycle_iff.mp hcycle with hparent | hchild | ⟨p, q, hparent, hp, hchild, hpath⟩
  · rw [show (o.fused c).parents = e.parents from (hedges .up).symm] at hparent
    exact TransGen.single (hadmitted.child_of_parent hexists he hparent)
  · rw [show (o.fused c).children = e.children from (hedges .down).symm] at hchild
    exact TransGen.single (child_iff.mpr ⟨e, he, hchild, hexists⟩)
  · rw [show (o.fused c).parents = e.parents from (hedges .up).symm] at hparent
    rw [show (o.fused c).children = e.children from (hedges .down).symm] at hchild
    have hq : o.hasConcept q = true := by
      rcases ReflTransGen.cases_head hpath with rfl | ⟨y, hy, -⟩
      · exact hp
      · exact hy.hasConcept_parent
    -- from the concept to its child, up to its parent, and back
    have hdown : (o.admitted c).Child c.name q :=
      child_iff.mpr ⟨e, he, hchild, ho.hasConcept_admitted hq⟩
    have hup : (o.admitted c).Child p c.name :=
      hadmitted.child_of_parent (ho.hasConcept_admitted hp) he hparent
    have hmid : ReflTransGen (o.admitted c).Child q p :=
      ReflTransGen.mono (fun _ _ => ho.child_admitted hc) _ _ hpath
    exact TransGen.tail' ((ReflTransGen.single hdown).trans hmid) hup

/-- A concept that closes no circle after another one is added closes none before. -/
theorem Linked.closesCycle_of_later (ho : o.Linked) (ha : o.hasConcept a.name = false)
    (hb : o.hasConcept b.name = false) (hne : a.name ≠ b.name) (hoa : (o.admitted a).Linked)
    (hcheck : (o.admitted a).closesCycle ((o.admitted a).fused b) = false) :
    o.closesCycle (o.fused b) = false := by
  rw [ho.fused_admitted hb ha hne.symm hoa] at hcheck
  have hkeeps : ∀ reach x, ((o.fused b).edges reach).has x = true →
      (((o.fused b).meeting a).edges reach).has x = true := fun reach x h =>
    (Concept.has_edges_meeting reach).mpr (Or.inl h)
  refine Bool.eq_false_iff.mpr fun hcycle => Bool.eq_false_iff.mp hcheck ?_
  refine hoa.closesCycle_iff.mpr ((ho.closesCycle_iff.mp hcycle).imp (hkeeps .up _)
    (Or.imp (hkeeps .down _) ?_))
  rintro ⟨p, q, hparent, hp, hchild, hpath⟩
  exact ⟨p, q, hkeeps .up p hparent, ho.hasConcept_admitted hp, hkeeps .down q hchild,
    ReflTransGen.mono (fun _ _ => ho.child_admitted ha) _ _ hpath⟩

/-! ## Exchanging additions -/

theorem Kept.admitted (ho : o.Kept) (h : o.Admits c) : (o.admitted c).Kept := by
  have hkept := kept_addConcept ho c
  rwa [exec_addConcept_eq_ok_iff.mpr ⟨h, rfl⟩] at hkept

/-- Two additions that go through one way round go through the other way round and lead to the same
ontology. -/
theorem Kept.admits_comm (ho : o.Kept) (ha : o.Admits a) (hb : (o.admitted a).Admits b) :
    o.Admits b ∧ (o.admitted b).Admits a ∧
      (o.admitted a).admitted b = (o.admitted b).admitted a := by
  have hoa := ho.admitted ha
  have hne : b.name ≠ a.name := by
    intro hname
    obtain ⟨e, he, -⟩ := ho.linked.exists_admitted (c := a)
    have hnew := hb.new
    rw [hname, hasConcept_of_get? he] at hnew
    nomatch hnew
  have hnew : o.hasConcept b.name = false := (hasConcept_admitted_of_ne hne).symm.trans hb.new
  have hfirst : o.Admits b :=
    { new := hnew
      defined := hb.defined
      acyclic := ho.linked.closesCycle_of_later ha.new hnew hne.symm hoa.linked hb.acyclic }
  have hob := ho.admitted hfirst
  have hdeclared :=
    ho.linked.declared_admitted_comm ha.new hnew hne.symm hoa.linked hob.linked
  have hagain : (o.admitted b).hasConcept a.name = false :=
    (hasConcept_admitted_of_ne hne.symm).trans ha.new
  have hsecond : (o.admitted b).Admits a :=
    { new := hagain
      defined := ha.defined
      acyclic := hob.linked.closesCycle_of_admitted hagain
        ((hoa.admitted hb).linked.congr (shape_eq_of_declared hdeclared)) }
  refine ⟨hfirst, hsecond, (hoa.admitted hb).eq_of_declared (hob.admitted hsecond) hdeclared ?_⟩
  intro n
  rw [get?_relations_admitted, get?_relations_admitted, get?_relations_admitted,
    get?_relations_admitted]

/-- Additions one after the other. -/
theorem exec_forM_cons {rest : List Concept} (hc : o.Admits c) :
    exec ((c :: rest).forM addConcept) o = exec (rest.forM addConcept) (o.admitted c) :=
  exec_bind_ok (exec_addConcept_eq_ok_iff.mpr ⟨hc, rfl⟩)

theorem exec_forM_cons_eq_ok {rest : List Concept}
    (h : exec ((c :: rest).forM addConcept) o = (.ok (), o')) :
    o.Admits c ∧ exec (rest.forM addConcept) (o.admitted c) = (.ok (), o') := by
  have hfirst : exec (addConcept c >>= fun _ => rest.forM addConcept) o = (.ok (), o') := h
  rw [exec_bind] at hfirst
  cases hrun : exec (addConcept c) o with
  | mk outcome o₁ =>
      rw [hrun] at hfirst
      cases outcome with
      | error e => nomatch hfirst
      | ok u =>
          obtain ⟨hc, rfl⟩ := exec_addConcept_eq_ok_iff.mp hrun
          exact ⟨hc, hfirst⟩

/-- If some concepts can be added, one after the other, to an ontology that changes have led to,
then they can be added in every other order, and the ontology is the same afterwards: all that is
declared, inherited, viewed and counted.  That their names are new and different, and that they
close no circle, is part of what it means that they can be added. -/
theorem addConcept_perm (h : o.Reachable) {concepts others : List Concept}
    (hperm : concepts.Perm others) (hadded : exec (concepts.forM addConcept) o = (.ok (), o')) :
    exec (others.forM addConcept) o = (.ok (), o') := by
  have ho := h.kept
  clear h
  induction hperm generalizing o with
  | nil => exact hadded
  | cons c _ ih =>
      obtain ⟨hc, hrest⟩ := exec_forM_cons_eq_ok hadded
      rw [exec_forM_cons hc]
      exact ih hrest (ho.admitted hc)
  | swap b a rest =>
      obtain ⟨ha, hadded⟩ := exec_forM_cons_eq_ok hadded
      obtain ⟨hb, hrest⟩ := exec_forM_cons_eq_ok hadded
      obtain ⟨hfirst, hsecond, hsame⟩ := ho.admits_comm ha hb
      rw [exec_forM_cons hfirst, exec_forM_cons hsecond, ← hsame]
      exact hrest
  | trans _ _ ih₁ ih₂ => exact ih₂ (ih₁ hadded ho) ho

/-- Ships name what is above and below them, whether it is there or not. -/
def ships : List Concept := [
  { name := "Tanker", category := .dynamic, parents := KeySet.ofList ["Ship"],
    ownProperties := Table.ofList [("carries", .text "oil")] },
  { name := "Ship", category := .abstract, parents := KeySet.ofList ["Boat"],
    children := KeySet.ofList ["Ferry", "Tanker"], ownAliases := KeySet.ofList ["vessel"] },
  { name := "Ferry", category := .dynamic }]

/-- The ships can be added to what carries cargo from the last to the first as well: a tanker is a
vessel and carries cargo in the end, as a vehicle, whether the ship that it names is there or not.
-/
theorem ships_reversed :
    ∃ o r c, exec (ships.reverse.forM addConcept) transport = (.ok (), o) ∧
      o.relations.get? "carries" = some r ∧ r.between "Tanker" "Cargo" = true ∧
      o.concepts.get? "Tanker" = some c ∧ c.aliases.has "vessel" = true := by
  obtain ⟨hadded, hcarries, htanker⟩ :
      (exec (ships.forM addConcept) transport).1.isOk = true ∧
      ((exec (ships.forM addConcept) transport).2.relations.get? "carries").any
        (fun r => r.between "Tanker" "Cargo") = true ∧
      ((exec (ships.forM addConcept) transport).2.concepts.get? "Tanker").any
        (fun c => c.aliases.has "vessel") = true := by decide +kernel
  generalize hrun : exec (ships.forM addConcept) transport = run at hadded hcarries htanker
  obtain ⟨outcome, o⟩ := run
  cases outcome with
  | error e => nomatch hadded
  | ok u =>
      obtain ⟨r, hr, hbetween⟩ := (Option.any_eq_true _ _).mp hcarries
      obtain ⟨c, hc, halias⟩ := (Option.any_eq_true _ _).mp htanker
      exact ⟨o, r, c, addConcept_perm reachable_transport ships.reverse_perm.symm hrun, hr,
        hbetween, hc, halias⟩

end Ontology

end Credence

end Arrival
