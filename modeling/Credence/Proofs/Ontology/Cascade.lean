import Credence.Proofs.Ontology.Graph

/-!
# What a walk down the concepts brings up to date

A concept is *settled* when it inherits exactly what its present parents contribute.  `cascade`
walks down from one concept, along every path, and lets each concept that it meets inherit anew.  A
concept may be met while some of its parents are still out of date; it is then met again, after each
of them.  So in the end everything below the start is settled (`cascaded_cascade`), what was settled
elsewhere still is, and nothing else has changed.

The order of the walk is followed along the children of one concept: whatever lies below a child is
settled when the child is done, and a later child can only unsettle what lies below itself.

`inherited_unique` is the other half.  There is one way only in which a whole linked ontology can be
settled, since a concept's inheritance is determined by those above it.
-/

section Cascade

open Relation (TransGen ReflTransGen)

namespace Credence

/-! ## Contributions -/

/-- What a concept contributes to its children: its aliases and its properties. -/
def Concept.contribution (c : Concept) : NameSet × Table String Holding := (c.aliases, c.properties)

/-- The contribution follows from what is declared and what is inherited. -/
theorem Concept.contribution_eq {c c' : Concept} (hdeclared : c.declared = c'.declared)
    (hinherited : c.inherited = c'.inherited) : c.contribution = c'.contribution := by
  have haliases := congrArg Concept.ownAliases hdeclared
  have hproperties := congrArg Concept.ownProperties hdeclared
  change c.ownAliases = c'.ownAliases at haliases
  change c.ownProperties = c'.ownProperties at hproperties
  unfold Concept.contribution Concept.aliases Concept.properties Concept.property?
  rw [haliases, hproperties, hinherited]

namespace Inherited

/-- Adds the contribution of one parent. -/
def addContribution (i : Inherited) (p : NameSet × Table String Holding) : Inherited where
  aliases := p.1.toList.foldl (fun t a => t.alter a fun n => n.getD 0 + 1) i.aliases
  properties := p.2.entries.foldl
    (fun t e => t.alter e.1 fun vs => e.2.values.foldl (fun vs v => bumpValue v vs) (vs.getD []))
    i.properties

theorem ofParents_eq (parents : List Concept) :
    ofParents parents = (parents.map Concept.contribution).foldl addContribution {} := by
  rw [List.foldl_map]
  rfl

end Inherited

namespace Ontology

variable {b o o' : Ontology} {name x : String} {c : Concept}

/-! ## Settled concepts -/

/-- A concept, if there is one of that name, inherits what its parents contribute. -/
def SettledAt (o : Ontology) (name : String) : Prop :=
  ∀ c, o.concepts.get? name = some c → c.inherited = .ofParents (o.parentsOf c)

/-- Every concept inherits what its parents contribute. -/
def Settled (o : Ontology) : Prop := ∀ name, o.SettledAt name

theorem contributions_parentsOf (o : Ontology) (c : Concept) :
    (o.parentsOf c).map Concept.contribution =
      c.parents.toList.filterMap fun p => (o.concepts.get? p).map Concept.contribution := by
  unfold parentsOf
  rw [List.map_filterMap]

/-- Whether a concept is settled depends on its own parents and inheritance, and on what its parents
contribute. -/
theorem SettledAt.congr
    (hname : (o'.concepts.get? name).map (fun c => (c.parents, c.inherited)) =
      (o.concepts.get? name).map fun c => (c.parents, c.inherited))
    (hparents : ∀ c, o.concepts.get? name = some c → ∀ p, c.parents.has p = true →
      (o'.concepts.get? p).map Concept.contribution = (o.concepts.get? p).map Concept.contribution)
    (h : o.SettledAt name) : o'.SettledAt name := by
  intro c' hc'
  rw [hc', Option.map_some] at hname
  obtain ⟨c, hc, heq⟩ := Option.map_eq_some_iff.mp hname.symm
  obtain ⟨hpar, hinh⟩ := Prod.mk.inj heq
  rw [← hinh, h c hc, Inherited.ofParents_eq, Inherited.ofParents_eq, contributions_parentsOf,
    contributions_parentsOf, ← hpar]
  congr 1
  refine List.filterMap_congr fun p hp => ?_
  exact (hparents c hc p (KeySet.mem_toList_iff.mp hp)).symm

/-- The inheritance in a settled ontology is determined by what is declared. -/
theorem inherited_unique (ho : o.Linked) (hdeclared : o.declared = o'.declared) (hs : o.Settled)
    (hs' : o'.Settled) :
    (o.concepts.get? name).map Concept.inherited =
      (o'.concepts.get? name).map Concept.inherited := by
  induction name using ho.induction with
  | step name ih =>
      cases hc : o.concepts.get? name with
      | none => rw [none_of_shape_eq (shape_eq_of_declared hdeclared) hc]
      | some c =>
          obtain ⟨c', hc', heq⟩ := exists_of_declared_eq hdeclared hc
          rw [hc', Option.map_some, Option.map_some, hs name c hc, hs' name c' hc',
            Inherited.ofParents_eq, Inherited.ofParents_eq, contributions_parentsOf,
            contributions_parentsOf, Concept.parents_eq_of_shape (Concept.shape_eq_of_declared heq)]
          congr 2
          refine List.filterMap_congr fun p hp => ?_
          cases hd : o.concepts.get? p with
          | none => rw [none_of_shape_eq (shape_eq_of_declared hdeclared) hd]
          | some d =>
              have hchild := ho.child_of_parent (hasConcept_of_get? hd) hc
                (KeySet.mem_toList_iff.mp hp)
              have hinherited := ih p hchild
              obtain ⟨d', hd', heqd⟩ := exists_of_declared_eq hdeclared hd
              rw [hd, hd', Option.map_some, Option.map_some] at hinherited
              rw [hd', Option.map_some, Option.map_some]
              exact congrArg some (Concept.contribution_eq heqd.symm (Option.some.inj hinherited))

/-! ## The walk -/

/-- What becomes of an ontology when everything below some concepts inherits anew. -/
structure Cascaded (b o o' : Ontology) (below : String → Prop) : Prop where
  declared : o'.declared = b.declared
  relations : o'.relations = o.relations
  away (x : String) (hx : ¬ below x) : o'.concepts.get? x = o.concepts.get? x
  settles (x : String) (hx : below x) : o'.SettledAt x

/-- What was settled and does not lie below stays settled: its parents do not lie below either. -/
theorem Cascaded.keeps {below : String → Prop} (h : Cascaded b o o' below) (hb : b.Linked)
    (ho : o.declared = b.declared)
    (hclosed : ∀ p x, below p → b.Child p x → below x) (hx : ¬ below x) (hs : o.SettledAt x) :
    o'.SettledAt x := by
  refine SettledAt.congr (by rw [h.away x hx]) (fun c hc p hp => ?_) hs
  by_cases hbelow : below p
  · cases hd : o.concepts.get? p with
    | none => rw [none_of_shape_eq (shape_eq_of_declared (ho.trans h.declared.symm)) hd]
    | some d =>
        have hlinked := hb.congr (shape_eq_of_declared ho.symm)
        have hchild := hlinked.child_of_parent (hasConcept_of_get? hd) hc hp
        rw [child_congr (shape_eq_of_declared ho)] at hchild
        exact absurd (hclosed p x hbelow hchild) hx
  · rw [h.away p hbelow]

/-- Everything that lies below a concept, or is it. -/
def Reaches (b : Ontology) (name x : String) : Prop := ReflTransGen b.Child name x

theorem Reaches.closed {p : String} (h : b.Reaches name p) (hx : b.Child p x) : b.Reaches name x :=
  ReflTransGen.tail h hx

/-- One walk after the other, each down from one of some concepts. -/
theorem cascaded_foldl {walk : Ontology → String → Ontology} (hb : b.Linked) (ks : List String)
    (hwalk : ∀ k ∈ ks, ∀ o : Ontology, o.declared = b.declared →
      Cascaded b o (walk o k) (b.Reaches k)) (o : Ontology) (ho : o.declared = b.declared) :
    Cascaded b o (ks.foldl walk o) fun x => ∃ k ∈ ks, b.Reaches k x := by
  induction ks generalizing o with
  | nil =>
      exact { declared := ho, relations := rfl, away := fun _ _ => rfl,
              settles := fun x hx => by obtain ⟨k, hk, -⟩ := hx; exact absurd hk List.not_mem_nil }
  | cons k rest ih =>
      have hfirst := hwalk k List.mem_cons_self o ho
      have hrest := ih (fun j hj => hwalk j (List.mem_cons_of_mem _ hj)) (walk o k) hfirst.declared
      rw [List.foldl_cons]
      refine
        { declared := hrest.declared
          relations := hrest.relations.trans hfirst.relations
          away := fun x hx => ?_
          settles := fun x hx => ?_ }
      · rw [hrest.away x fun ⟨j, hj, hreach⟩ => hx ⟨j, List.mem_cons_of_mem _ hj, hreach⟩,
          hfirst.away x fun hreach => hx ⟨k, List.mem_cons_self, hreach⟩]
      · by_cases hlater : ∃ j ∈ rest, b.Reaches j x
        · exact hrest.settles x hlater
        · obtain ⟨j, hj, hreach⟩ := hx
          have hjk : j = k := (List.mem_cons.mp hj).resolve_right fun hj => hlater ⟨j, hj, hreach⟩
          refine hrest.keeps hb hfirst.declared (fun p x hp hx => ?_) hlater
            (hfirst.settles x (hjk ▸ hreach))
          obtain ⟨j, hj, hreach⟩ := hp
          exact ⟨j, hj, hreach.closed hx⟩

/-- A concept that inherits anew is settled, since it is none of its own parents. -/
theorem settledAt_inherit (ho : o.Linked) : (o.inherit name).SettledAt name := by
  intro c' hc'
  rw [inherit, Table.get?_modify, if_pos rfl] at hc'
  obtain ⟨c, hc, rfl⟩ := Option.map_eq_some_iff.mp hc'
  show Inherited.ofParents (o.parentsOf c) = Inherited.ofParents _
  congr 1
  refine List.filterMap_congr fun p hp => ?_
  rw [inherit, Table.get?_modify, if_neg]
  rintro rfl
  exact ho.acyclic p (TransGen.single
    (ho.child_of_parent (hasConcept_of_get? hc) hc (KeySet.mem_toList_iff.mp hp)))

theorem get?_inherit_of_ne (hx : x ≠ name) :
    (o.inherit name).concepts.get? x = o.concepts.get? x := by
  rw [inherit, Table.get?_modify, if_neg hx]

/-- A walk leaves alone what no inheritance changes. -/
theorem cascade_keeps {α : Type} {g : Ontology → α} (hg : ∀ o name, g (inherit o name) = g o)
    (o : Ontology) (name : String) : g (o.cascade name) = g o := by
  have hwalk : ∀ depth path o name, g (cascadeFrom depth path o name) = g o := by
    intro depth
    induction depth with
    | zero => exact fun _ _ _ => rfl
    | succ depth ih =>
        intro path o name
        unfold cascadeFrom
        split
        · rfl
        · split
          · rfl
          · exact List.foldlRecOn (motive := fun o' => g o' = g o) _ _ (hg o name) fun o' h k _ =>
              (ih _ o' k).trans h
  exact hwalk _ [] o name

theorem foldl_cascade_keeps {α : Type} {g : Ontology → α}
    (hg : ∀ o name, g (inherit o name) = g o) (names : List String) (o : Ontology) :
    g (names.foldl cascade o) = g o :=
  List.foldlRecOn (motive := fun o' => g o' = g o) _ _ rfl fun o' h k _ =>
    (cascade_keeps hg o' k).trans h

/-- Nothing lies below a concept that does not exist. -/
theorem cascaded_missing (ho : o.declared = b.declared) (hc : o.concepts.get? name = none) :
    Cascaded b o o (b.Reaches name) := by
  have hnone : b.concepts.get? name = none := none_of_shape_eq (shape_eq_of_declared ho) hc
  refine { declared := ho, relations := rfl, away := fun _ _ => rfl, settles := fun x hx => ?_ }
  rcases ReflTransGen.cases_head hx with rfl | ⟨y, hy, -⟩
  · intro c hxc
    rw [hc] at hxc
    nomatch hxc
  · obtain ⟨d, hd⟩ := hasConcept_iff.mp hy.hasConcept_parent
    rw [hnone] at hd
    nomatch hd

theorem child_of_mem_children (ho : o.declared = b.declared) (hc : o.concepts.get? name = some c)
    {k : String} (hk : k ∈ c.children.toList) (hexists : b.hasConcept k = true) :
    b.Child name k := by
  obtain ⟨d, hd, heq⟩ := exists_of_declared_eq ho hc
  refine child_iff.mpr ⟨d, hd, ?_, hexists⟩
  rw [Concept.children_eq_of_shape (Concept.shape_eq_of_declared heq)]
  exact KeySet.mem_toList_iff.mp hk

/-- What lies below a concept is the concept or lies below one of its children. -/
theorem Reaches.eq_or_below (ho : o.declared = b.declared) (hc : o.concepts.get? name = some c)
    (hx : b.Reaches name x) : x = name ∨ ∃ k ∈ c.children.toList, b.Reaches k x := by
  obtain ⟨d, hd, heq⟩ := exists_of_declared_eq ho hc
  rcases ReflTransGen.cases_head hx with h | ⟨y, hy, hreach⟩
  · exact .inl h.symm
  · obtain ⟨e, he, hhas, -⟩ := child_iff.mp hy
    rw [hd, Option.some.injEq] at he
    rw [← he, Concept.children_eq_of_shape (Concept.shape_eq_of_declared heq)] at hhas
    exact .inr ⟨y, KeySet.mem_toList_iff.mpr hhas, hreach⟩

/-- A concept inherits anew, and then everything below its children does. -/
theorem Cascaded.of_children (hb : b.Linked) (ho : o.declared = b.declared)
    (hc : o.concepts.get? name = some c)
    (h : Cascaded b (o.inherit name) o' fun x => ∃ k ∈ c.children.toList, b.Reaches k x) :
    Cascaded b o o' (b.Reaches name) := by
  refine
    { declared := h.declared
      relations := h.relations
      away := fun x hx => ?_
      settles := fun x hx => ?_ }
  · cases hxc : o.concepts.get? x with
    | none => exact none_of_shape_eq (shape_eq_of_declared (ho.trans h.declared.symm)) hxc
    | some e =>
        have hxexists : b.hasConcept x = true := by
          rw [← hasConcept_congr (shape_eq_of_declared ho)]
          exact hasConcept_of_get? hxc
        have hne : x ≠ name := fun h => hx (h ▸ ReflTransGen.refl)
        rw [h.away x, get?_inherit_of_ne hne, hxc]
        -- a child above something that exists exists itself, so it counts as a child
        rintro ⟨k, hk, hreach⟩
        have hkexists : b.hasConcept k = true := by
          rcases ReflTransGen.cases_head hreach with h | ⟨y, hy, -⟩
          · exact h ▸ hxexists
          · exact hy.hasConcept_parent
        exact hx (ReflTransGen.head (child_of_mem_children ho hc hk hkexists) hreach)
  · by_cases hbelow : ∃ k ∈ c.children.toList, b.Reaches k x
    · exact h.settles x hbelow
    · have hself : x = name := (hx.eq_or_below ho hc).resolve_right hbelow
      have hinherit : (o.inherit name).declared = b.declared := by rw [declared_inherit, ho]
      refine h.keeps hb hinherit (fun p x hp hx => ?_) hbelow
        (hself ▸ settledAt_inherit (hb.congr (shape_eq_of_declared ho.symm)))
      obtain ⟨k, hk, hreach⟩ := hp
      exact ⟨k, hk, hreach.closed hx⟩

/-- A walk settles everything below its start.  The path holds concepts above the start, so it is no
longer than there are concepts, and never meets the start. -/
theorem cascaded_cascadeFrom (hb : b.Linked) (depth : Nat) (path : List String) (o : Ontology)
    (name : String) (ho : o.declared = b.declared) (hdistinct : path.Nodup)
    (hexists : ∀ a ∈ path, b.hasConcept a = true)
    (habove : b.hasConcept name = true → ∀ a ∈ path, TransGen b.Child a name)
    (hdepth : b.concepts.size < depth + path.length) :
    Cascaded b o (cascadeFrom depth path o name) (b.Reaches name) := by
  induction depth generalizing path o name with
  | zero =>
      have hle := length_le_size hdistinct hexists
      omega
  | succ depth ih =>
      unfold cascadeFrom
      have hnew : name ∉ path := fun hmem => hb.acyclic name (habove (hexists name hmem) name hmem)
      rw [if_neg hnew]
      cases hc : o.concepts.get? name with
      | none => exact cascaded_missing ho hc
      | some c =>
          dsimp only
          have hname : b.hasConcept name = true := by
            rw [← hasConcept_congr (shape_eq_of_declared ho)]
            exact hasConcept_of_get? hc
          have hinherit : (o.inherit name).declared = b.declared := by rw [declared_inherit, ho]
          refine Cascaded.of_children hb ho hc
            (cascaded_foldl hb c.children.toList (fun k hk o' ho' => ?_) (o.inherit name) hinherit)
          -- the path grows by the concept, which lies above its children
          refine ih (name :: path) o' k ho' (List.nodup_cons.mpr ⟨hnew, hdistinct⟩)
            (List.forall_mem_cons.mpr ⟨hname, hexists⟩) (fun hk' => ?_) ?_
          · have hedge := child_of_mem_children ho hc hk hk'
            exact List.forall_mem_cons.mpr ⟨TransGen.single hedge,
              fun a ha => (habove hname a ha).tail hedge⟩
          · rw [List.length_cons]
            omega

/-- A whole walk. -/
theorem cascaded_cascade (hb : b.Linked) (ho : o.declared = b.declared) (name : String) :
    Cascaded b o (o.cascade name) (b.Reaches name) := by
  refine cascaded_cascadeFrom hb _ [] o name ho List.nodup_nil
    (fun a ha => absurd ha List.not_mem_nil) (fun _ a ha => absurd ha List.not_mem_nil) ?_
  rw [size_congr (shape_eq_of_declared ho), List.length_nil]
  omega

/-- Walks down from several concepts settle an ontology in which all others are settled. -/
theorem settled_foldl_cascade (hb : b.Linked) (ho : o.declared = b.declared) (names : List String)
    (haway : ∀ x, (∀ k ∈ names, ¬ b.Reaches k x) → o.SettledAt x) :
    (names.foldl cascade o).Settled ∧ (names.foldl cascade o).declared = b.declared ∧
      (names.foldl cascade o).relations = o.relations := by
  have hwalk := cascaded_foldl hb names (fun k _ o ho => cascaded_cascade hb ho k) o ho
  refine ⟨fun x => ?_, hwalk.declared, hwalk.relations⟩
  by_cases hbelow : ∃ k ∈ names, b.Reaches k x
  · exact hwalk.settles x hbelow
  · refine hwalk.keeps hb ho (fun p x hp hx => ?_) hbelow
      (haway x fun k hk hreach => hbelow ⟨k, hk, hreach⟩)
    obtain ⟨k, hk, hreach⟩ := hp
    exact ⟨k, hk, hreach.closed hx⟩

end Ontology

end Credence

end Cascade
