import Credence.Proofs.Ontology.Edges
import Credence.Proofs.Ontology.Kept
import Credence.Proofs.Running

/-!
# Changes of concepts keep an ontology up to date

A change that is refused leaves the ontology as it is.  A change that goes through ends with the
walks and the views that its part of the ontology needs.  What it declares unsettles only what these
walks meet, so afterwards everything is settled.
-/

namespace Credence.Ontology

variable {o : Ontology} {name : String} {c : Concept}

/-! ## What the ends of the changes bring up to date -/

theorem compiled_of_relations_eq {o' : Ontology} (h : o'.relations = o.relations)
    (ho : o.Compiled) : o'.Compiled := by
  intro n r hr
  exact ho n r (by rw [← h, hr])

theorem compiled_refresh (h : o.Compiled) : o.refresh.Compiled := by
  refine forall_refreshed fun n r hr rule' hrule' => ?_
  obtain ⟨rule, hrule, rfl⟩ := List.mem_map.mp hrule'
  exact h n r hr rule hrule

theorem named_of_relations_eq {o' : Ontology} (h : o'.relations = o.relations) (ho : o.Named) :
    o'.Named := by
  intro n r hr
  exact ho n r (by rw [← h, hr])

theorem named_refresh (h : o.Named) : o.refresh.Named := forall_refreshed h

theorem grounds_refreshRule {o' : Ontology} {rule : Rule} (h : o.Grounds rule) :
    o.Grounds (o'.refreshRule rule) := by
  intro side member hmember
  cases side with
  | domain => exact h .domain member hmember
  | target => exact h .target member hmember

theorem grounded_refresh (h : o.Grounded) : o.refresh.Grounded := by
  refine forall_refreshed fun n r hr rule' hrule' => ?_
  obtain ⟨rule, hrule, rfl⟩ := List.mem_map.mp hrule'
  intro side member hmember
  rw [hasConcept_congr (shape_eq_of_declared (declared_refresh o))]
  exact grounds_refreshRule (h n r hr rule hrule) side member hmember

/-- Walks and new views complete an ontology in which what the walks do not meet is settled. -/
theorem Linked.kept_walks (ho : o.Linked) (hcompiled : o.Compiled) (hnamed : o.Named)
    (hgrounded : o.Grounded) (names : List String)
    (haway : ∀ x, (∀ k ∈ names, ¬ o.Reaches k x) → o.SettledAt x) :
    (names.foldl cascade o).refresh.Kept := by
  obtain ⟨hsettled, hdeclared, hrelations⟩ := settled_foldl_cascade ho rfl names haway
  have hlinked := ho.congr (shape_eq_of_declared hdeclared.symm)
  exact
    { linked := hlinked.congr (shape_eq_of_declared (declared_refresh _).symm)
      settled := settled_refresh hsettled
      viewed := viewed_refresh _
      counted := counted_refresh _
      compiled := compiled_refresh (compiled_of_relations_eq hrelations hcompiled)
      named := named_refresh (named_of_relations_eq hrelations hnamed)
      grounded := grounded_refresh (hgrounded.congr
        (fun x hx => (hasConcept_congr (shape_eq_of_declared hdeclared) x).trans hx) hrelations) }

theorem Linked.kept_propagate (ho : o.Linked) (hcompiled : o.Compiled) (hnamed : o.Named)
    (hgrounded : o.Grounded) (haway : ∀ x, ¬ o.Reaches name x → o.SettledAt x) :
    (o.propagate name).Kept :=
  ho.kept_walks hcompiled hnamed hgrounded [name] fun x hx =>
    haway x (hx name List.mem_cons_self)

/-- New memberships complete an ontology whose relations have their views. -/
theorem Kept.recount_relations (ho : o.Kept) {relations : Table String Relation}
    (hrelations : ∀ n r, relations.get? n = some r →
      o.refreshRelation r = r ∧ (∀ rule ∈ r.rules, rule.Compiled ∧ o.Grounds rule) ∧
        r.name = n) :
    (recount { o with relations }).Kept := by
  have hshape : o.shape = (recount { o with relations }).shape :=
    shape_eq_of_declared (declared_recount { o with relations }).symm
  exact
    { linked := ho.linked.congr hshape
      settled := settled_recount (settled_of_concepts_eq rfl ho.settled)
      viewed := fun n r hr => by
        rw [← refreshRelation_congr hshape]
        exact (hrelations n r hr).1
      counted := counted_recount _
      compiled := fun n r hr rule hrule => ((hrelations n r hr).2.1 rule hrule).1
      named := fun n r hr => (hrelations n r hr).2.2
      grounded := fun n r hr rule hrule side member hmember => by
        rw [← hasConcept_congr hshape]
        exact ((hrelations n r hr).2.1 rule hrule).2 side member hmember }

theorem Kept.relation (ho : o.Kept) {r : Relation} (hr : o.relations.get? name = some r) :
    o.refreshRelation r = r ∧ (∀ rule ∈ r.rules, rule.Compiled ∧ o.Grounds rule) ∧ r.name = name :=
  ⟨ho.viewed name r hr,
    fun rule hrule => ⟨ho.compiled name r hr rule hrule, ho.grounded name r hr rule hrule⟩,
    ho.named name r hr⟩

theorem Kept.recount (ho : o.Kept) : o.recount.Kept :=
  ho.recount_relations fun _ _ => ho.relation

/-! ## Concepts -/

theorem exec_theConcept (o : Ontology) (name : String) :
    exec (theConcept name) o =
      match o.concepts.get? name with
      | some c => (.ok c, o)
      | none => (.error (.missing (.concept name)), o) := by
  unfold theConcept
  rw [exec_bind_ok (exec_get o)]
  cases o.concepts.get? name with
  | none => rfl
  | some _ => rfl

/-- A change of a concept keeps an ontology if it does so for the concept that is there. -/
theorem kept_theConcept {α : Type} (ho : o.Kept) {f : Concept → Change α}
    (hf : ∀ c, o.concepts.get? name = some c → (exec (f c) o).2.Kept) :
    (exec (theConcept name >>= f) o).2.Kept := by
  rw [exec_bind, exec_theConcept]
  cases hc : o.concepts.get? name with
  | none => exact ho
  | some c => exact hf c hc

theorem get?_modifyConcept (o : Ontology) (name : String) (f : Concept → Concept) (x : String) :
    (o.modifyConcept name f).concepts.get? x =
      if x = name then (o.concepts.get? x).map f else o.concepts.get? x :=
  Table.get?_modify _ _ _ _

/-- Other aliases or properties of its own unsettle, before the walk, only what lies below a
concept. -/
theorem Kept.propagate_modify (ho : o.Kept) {f : Concept → Concept}
    (hshape : ∀ c, (f c).shape = c.shape) : ((o.modifyConcept name f).propagate name).Kept := by
  have hget : ∀ x, (o.modifyConcept name f).concepts.get? x = _ := get?_modifyConcept o name f
  have hsame : o.shape = (o.modifyConcept name f).shape := by
    refine Table.ext_get? fun x => ?_
    rw [get?_shape, get?_shape, hget]
    by_cases hx : x = name
    · rw [if_pos hx, Option.map_map]
      congr 1
      funext c
      exact (hshape c).symm
    · rw [if_neg hx]
  have hgrounded : (o.modifyConcept name f).Grounded :=
    ho.grounded.congr (fun x hx => (hasConcept_congr hsame x).symm.trans hx) rfl
  refine (ho.linked.congr hsame).kept_propagate ho.compiled ho.named hgrounded fun x hx => ?_
  have hne : x ≠ name := by
    rintro rfl
    exact hx Relation.ReflTransGen.refl
  refine SettledAt.congr (o := o) (by rw [hget, if_neg hne]) (fun c hc p hp => ?_) (ho.settled x)
  cases hd : o.concepts.get? p with
  | none => rw [hget, hd, Option.map_none, ite_self]
  | some d =>
      rw [hget, if_neg, hd]
      rintro rfl
      -- only its children look at the concept
      have hchild := ho.linked.child_of_parent (hasConcept_of_get? hd) hc hp
      rw [child_congr hsame] at hchild
      exact hx (Relation.ReflTransGen.single hchild)

/-- What depends on no edge, contribution or view may change freely. -/
theorem Kept.modify_free (ho : o.Kept) {f : Concept → Concept}
    (hshape : ∀ c, (f c).shape = c.shape) (hinherited : ∀ c, (f c).inherited = c.inherited)
    (hcontribution : ∀ c, (f c).contribution = c.contribution)
    (hmemberships : ∀ c, (f c).memberships = c.memberships) : (o.modifyConcept name f).Kept := by
  have hget : ∀ {β : Type} (g : Concept → β), (∀ c, g (f c) = g c) → ∀ x,
      ((o.modifyConcept name f).concepts.get? x).map g = (o.concepts.get? x).map g := by
    intro β g hg x
    rw [get?_modifyConcept]
    by_cases hx : x = name
    · rw [if_pos hx, Option.map_map]
      congr 1
      exact funext hg
    · rw [if_neg hx]
  have hsame : o.shape = (o.modifyConcept name f).shape := by
    refine Table.ext_get? fun x => ?_
    rw [get?_shape, get?_shape, hget Concept.shape hshape]
  refine
    { linked := ho.linked.congr hsame
      settled := fun x => ?_
      viewed := viewed_congr hsame rfl ho.viewed
      counted := fun x c hc => ?_
      compiled := ho.compiled
      named := ho.named
      grounded := ho.grounded.congr (fun x hx => (hasConcept_congr hsame x).symm.trans hx) rfl }
  · refine SettledAt.congr (hget _ (fun c => ?_) x) (fun _ _ p _ => hget _ hcontribution p)
      (ho.settled x)
    rw [Concept.parents_eq_of_shape (hshape c), hinherited]
  · have hname := hget (fun c => (c.memberships, c.name))
      (fun c => by rw [hmemberships, Concept.name_eq_of_shape (hshape c)]) x
    rw [hc, Option.map_some] at hname
    obtain ⟨d, hd, heq⟩ := Option.map_eq_some_iff.mp hname.symm
    obtain ⟨hcount, hname⟩ := Prod.mk.inj heq
    rw [← hcount, ← hname]
    exact ho.counted x d hd

/-- A refusal leaves the ontology as it is. -/
theorem exec_violates_bind {α β : Type} (v : Violation) (next : α → Change β) (o : Ontology) :
    exec (violates v >>= next) o = (.error (.violation v), o) := rfl

theorem kept_addConcept (ho : o.Kept) (c : Concept) : (exec (addConcept c) o).2.Kept := by
  unfold addConcept
  rw [exec_bind_ok (exec_get o)]
  dsimp only
  by_cases hnew : o.hasConcept c.name = true
  · rw [if_pos hnew, exec_violates_bind]
    exact ho
  rw [if_neg hnew]
  split
  · rw [exec_violates_bind]
    exact ho
  by_cases hcycle : o.closesCycle (o.fused c) = true
  · rw [if_pos hcycle, exec_violates_bind]
    exact ho
  rw [if_neg hcycle]
  have hfused := ho.linked.fused c
  have hlinked : (o.added (o.fused c)).Linked :=
    ho.linked.added hfused (Bool.eq_false_iff.mpr hcycle)
  have hrelations : (o.added (o.fused c)).relations = o.relations := by
    show (o.link (o.fused c)).relations = o.relations
    rw [link_eq]
    rfl
  have hcompiled := compiled_of_relations_eq hrelations ho.compiled
  have hnamed := named_of_relations_eq hrelations ho.named
  have hgrounded : (o.added (o.fused c)).Grounded := by
    refine ho.grounded.congr (fun x hx => ?_) hrelations
    by_cases hname : x = c.name
    · exact hasConcept_of_get? (get?_added.trans (if_pos hname))
    · exact (hasConcept_added (c := o.fused c) hname).trans hx
  refine hlinked.kept_propagate hcompiled hnamed hgrounded fun x hx d hd => ?_
  have hne : x ≠ c.name := by
    rintro rfl
    exact hx Relation.ReflTransGen.refl
  refine hfused.settledAt_added (ho.settled x) hne (Bool.eq_false_iff.mpr fun hchild => hx ?_) d hd
  refine Relation.ReflTransGen.single (child_iff.mpr ⟨o.fused c, ?_, hchild, hasConcept_of_get? hd⟩)
  exact get?_added.trans (if_pos rfl)

/-- If nothing holds a concept, no relation does. -/
theorem not_holds_of_isEmpty {n : String} {r : Relation}
    (h : ¬ (!(((o.relations.values.filter fun r => holds r name).map (·.name)).mergeSort).isEmpty) =
      true) (hr : o.relations.get? n = some r) : holds r name = false := by
  rw [Bool.not_eq_true, Bool.not_eq_false', List.isEmpty_iff] at h
  have hlength := congrArg List.length h
  rw [List.length_mergeSort, List.length_map, List.length_nil, List.length_eq_zero_iff,
    List.filter_eq_nil_iff] at hlength
  exact Bool.eq_false_iff.mpr (hlength r (Table.mem_values_iff.mpr ⟨n, hr⟩))

/-- Without a concept that no relation holds, the rules are as grounded as before. -/
theorem Grounded.removed (h : o.Grounded) (hrelations : (o.removed name c).relations = o.relations)
    (hfree : ∀ n r, o.relations.get? n = some r → holds r name = false) :
    (o.removed name c).Grounded := by
  intro n r hr rule hrule side member hmember
  rw [hrelations] at hr
  have hexists := h n r hr rule hrule side member hmember
  have hfree := hfree n r hr
  unfold holds at hfree
  rw [Bool.or_eq_false_iff, List.any_eq_false] at hfree
  have hnames := hfree.2 rule hrule
  have hne : member.conceptName ≠ name := by
    rintro rfl
    have hnamed : (rule.members side).names member.conceptName = true :=
      List.any_eq_true.mpr ⟨member, KeySet.mem_toList_iff.mpr hmember, decide_eq_true rfl⟩
    cases side with
    | domain => exact hnames (Bool.or_eq_true_iff.mpr (.inl hnamed))
    | target => exact hnames (Bool.or_eq_true_iff.mpr (.inr hnamed))
  obtain ⟨d, hd⟩ := hasConcept_iff.mp hexists
  exact hasConcept_of_get? (by rw [get?_removed, if_neg hne, hd]; rfl)

theorem kept_removeConcept (ho : o.Kept) (name : String) :
    (exec (removeConcept name) o).2.Kept := by
  refine kept_theConcept ho fun c hc => ?_
  rw [exec_bind_ok (exec_get o)]
  dsimp only
  split
  · rw [exec_violates_bind]
    exact ho
  rename_i hholders
  have hrelations : (o.removed name c).relations = o.relations := by
    unfold removed
    rw [unlink_eq]
    rfl
  refine (ho.linked.removed c).kept_walks (compiled_of_relations_eq hrelations ho.compiled)
    (named_of_relations_eq hrelations ho.named)
    (ho.grounded.removed hrelations fun n r hr => not_holds_of_isEmpty hholders hr)
    c.children.toList fun x hx d hd => ?_
  refine ho.linked.settledAt_removed hc (ho.settled x) (Bool.eq_false_iff.mpr fun hchild => ?_)
    d hd
  exact hx x (KeySet.mem_toList_iff.mpr hchild) Relation.ReflTransGen.refl

theorem kept_addParent (ho : o.Kept) (child parent : String) :
    (exec (addParent child parent) o).2.Kept := by
  refine kept_theConcept ho fun c hc => ?_
  rw [exec_bind_ok (exec_get o)]
  by_cases hcheck : child = parent ∨ (o.descendants child).has parent = true
  · rw [if_pos hcheck, exec_violates_bind]
    exact ho
  rw [if_neg hcheck]
  show (if (!c.parents.has parent) = true then (o.joined child parent).propagate child
    else o.joined child parent).Kept
  cases hparent : c.parents.has parent with
  | true =>
      -- both ends of the edge are there already
      rw [if_neg (by simp), ho.linked.joined_eq_self hc hparent]
      exact ho
  | false =>
      rw [if_pos Bool.not_false]
      have hgrounded : (o.joined child parent).Grounded := by
        rw [joined_eq]
        exact ho.grounded.congr (fun x hx => hasConcept_rewired.trans hx) rfl
      refine (ho.linked.joined hcheck).kept_propagate ho.compiled ho.named hgrounded fun x hx => ?_
      refine settledAt_joined (ho.settled x) ?_
      rintro rfl
      exact hx Relation.ReflTransGen.refl

theorem kept_removeParent (ho : o.Kept) (child parent : String) :
    (exec (removeParent child parent) o).2.Kept := by
  refine kept_theConcept ho fun c hc => ?_
  rw [exec_bind_ok (exec_get o)]
  show (if c.parents.has parent = true then (o.parted child parent).propagate child
    else o.parted child parent).Kept
  cases hparent : c.parents.has parent with
  | true =>
      rw [if_pos rfl]
      have hgrounded : (o.parted child parent).Grounded := by
        rw [parted_eq]
        exact ho.grounded.congr (fun x hx => hasConcept_rewired.trans hx) rfl
      refine ho.linked.parted.kept_propagate ho.compiled ho.named hgrounded fun x hx => ?_
      refine settledAt_parted (ho.settled x) ?_
      rintro rfl
      exact hx Relation.ReflTransGen.refl
  | false =>
      -- the parent has no such child either
      rw [if_neg Bool.false_ne_true, ho.linked.parted_eq_self hc hparent]
      exact ho

theorem kept_addAlias (ho : o.Kept) (concept other : String) :
    (exec (addAlias concept other) o).2.Kept := by
  refine kept_theConcept ho fun c _ => ?_
  dsimp only
  split
  · exact ho.propagate_modify fun _ => rfl
  · exact ho

theorem kept_removeAlias (ho : o.Kept) (concept other : String) :
    (exec (removeAlias concept other) o).2.Kept := by
  refine kept_theConcept ho fun c _ => ?_
  dsimp only
  split
  · exact ho.propagate_modify fun _ => rfl
  · exact ho

theorem kept_setProperty (ho : o.Kept) (concept key : String) (value : Value) :
    (exec (setProperty concept key value) o).2.Kept := by
  unfold setProperty
  dsimp only
  split
  · rw [exec_violates_bind]
    exact ho
  exact kept_theConcept ho fun c _ => ho.propagate_modify fun _ => rfl

theorem kept_removeProperty (ho : o.Kept) (concept key : String) :
    (exec (removeProperty concept key) o).2.Kept := by
  refine kept_theConcept ho fun c _ => ?_
  dsimp only
  split
  · exact ho.propagate_modify fun _ => rfl
  · exact ho

theorem exec_setFactory (o : Ontology) (concept : String) (factory : Factory) :
    exec (setFactory concept factory) o =
      match o.concepts.get? concept with
      | none => (.error (.missing (.concept concept)), o)
      | some _ => (.ok (), o.modifyConcept concept fun c =>
          { c with chosenFactory := some factory }) := by
  unfold setFactory
  rw [exec_bind, exec_theConcept]
  cases o.concepts.get? concept <;> rfl

/-- Nothing computed depends on a factory. -/
theorem kept_setFactory (ho : o.Kept) (concept : String) (factory : Factory) :
    (exec (setFactory concept factory) o).2.Kept :=
  kept_theConcept ho fun _ _ =>
    ho.modify_free (fun _ => rfl) (fun _ => rfl) (fun _ => rfl) fun _ => rfl

end Credence.Ontology
