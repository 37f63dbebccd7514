import Credence.Proofs.Ontology.Hierarchy

/-!
# Views and memberships

The views of the groups of a relation, and the memberships that concepts count, are kept beside what
they follow from.  In an ontology that is up to date they can be read off the bases: a group stands
for a concept if one of its bases exists and is the concept or lies above it, and a concept has
counted the groups that stand for it and the sides of rules that name it.

Relations stand under their own names (`Named`), so each of them adds to one count of a concept
only, its own.
-/

namespace Credence

theorem countP_flatMap_pair {α β : Type} (p : β → Bool) (f g : α → β) (l : List α) :
    (l.flatMap fun a => [f a, g a]).countP p =
      l.countP (fun a => p (f a)) + l.countP fun a => p (g a) := by
  induction l with
  | nil => rfl
  | cons a rest ih =>
      rw [List.flatMap_cons, List.countP_append, ih, List.countP_cons, List.countP_cons,
        List.countP_cons, List.countP_cons, List.countP_nil]
      omega

namespace Ontology

variable {o : Ontology} {name x : String} {g : Group} {r : Relation}

/-! ## Views -/

/-- Whether some base of a group exists and is a concept or lies above it. -/
def covers (o : Ontology) (g : Group) (x : String) : Bool :=
  g.bases.toList.any fun b => o.hasConcept b && o.isA x b

theorem covers_iff : o.covers g x = true ↔
    ∃ b, g.bases.has b = true ∧ o.hasConcept b = true ∧ o.isA x b = true := by
  simp only [covers, List.any_eq_true, Bool.and_eq_true, KeySet.mem_toList_iff]

/-- A concept is another one or lies below it exactly if it is the other one or the other one lies
above it. -/
theorem Linked.isA_iff (ho : o.Linked) {b : String} :
    o.isA x b = true ↔ x = b ∨ (o.descendants b).has x = true := by
  rw [isA, Bool.or_eq_true, decide_eq_true_eq, ho.has_ancestors_iff, ho.has_descendants_iff]

/-- Bases stand for those of them that exist and for what is found beyond these. -/
theorem has_foldl_found (o : Ontology) (found : String → NameSet) (bases : List String) :
    ((bases.filter o.hasConcept).foldl (fun (s : NameSet) b => (s.union (found b)).add b) ∅).has x =
        true ↔
      ∃ b ∈ bases, o.hasConcept b = true ∧ (x = b ∨ (found b).has x = true) := by
  have hstep : ∀ (s : NameSet) b, ((s.union (found b)).add b).has x = true ↔
      s.has x = true ∨ (x = b ∨ (found b).has x = true) := by
    intro s b
    rw [KeySet.has_add, KeySet.has_union, Bool.or_eq_true, Bool.or_eq_true, decide_eq_true_eq,
      or_left_comm]
  refine (KeySet.has_foldl hstep _ ∅).trans ?_
  simp only [List.mem_filter, KeySet.has_empty, Bool.false_eq_true, false_or, and_assoc]

/-- Downwards, bases stand for what is one of the existing ones or lies below it. -/
theorem Linked.has_expand_down (ho : o.Linked) (bases : List String) :
    (o.expand .down bases).has x = true ↔
      ∃ b ∈ bases, o.hasConcept b = true ∧ o.isA x b = true := by
  simp only [ho.isA_iff]
  exact o.has_foldl_found o.descendants bases

/-- Upwards, bases stand for what is one of the existing ones or lies above it. -/
theorem has_expand_up (o : Ontology) (bases : List String) :
    (o.expand .up bases).has x = true ↔
      ∃ b ∈ bases, o.hasConcept b = true ∧ o.isA b x = true := by
  simp only [isA, Bool.or_eq_true, decide_eq_true_eq, @eq_comm String _ x]
  exact o.has_foldl_found o.ancestors bases

/-- A view that is right stands for what its group covers. -/
theorem Linked.has_view (ho : o.Linked) (hg : o.refreshGroup g = g) :
    g.view.has x = o.covers g x := by
  have hview : o.expand .down g.bases.toList = g.view := congrArg Group.view hg
  rw [← hview, Bool.eq_iff_iff, ho.has_expand_down, covers_iff]
  simp only [KeySet.mem_toList_iff]

/-- The groups of an ontology that is up to date stand for what they cover. -/
theorem Kept.has_views (ho : o.Kept) (hr : o.relations.get? name = some r) {gd gt : Group}
    (hg : (gd, gt) ∈ r.groups) :
    (∀ x, gd.view.has x = o.covers gd x) ∧ ∀ x, gt.view.has x = o.covers gt x := by
  obtain ⟨hdomains, htargets, -⟩ := ho.viewed.parts hr
  obtain ⟨hd, ht⟩ := List.of_mem_zip hg
  exact ⟨fun x => ho.linked.has_view (map_eq_self_iff.mp hdomains gd hd),
    fun x => ho.linked.has_view (map_eq_self_iff.mp htargets gt ht)⟩

theorem Kept.between_iff (ho : o.Kept) (hr : o.relations.get? name = some r) (d t : String) :
    r.between d t = true ↔
      ∃ gd gt, (gd, gt) ∈ r.groups ∧ o.covers gd d = true ∧ o.covers gt t = true := by
  rw [Relation.between, List.any_eq_true, Prod.exists]
  refine exists_congr fun gd => exists_congr fun gt => and_congr_right fun hg => ?_
  obtain ⟨hd, ht⟩ := ho.has_views hr hg
  rw [hd, ht, Bool.and_eq_true]

theorem mem_groups_iff {gd gt : Group} :
    (gd, gt) ∈ r.groups ↔ ∃ i : Nat, r.domains[i]? = some gd ∧ r.targets[i]? = some gt := by
  rw [Relation.groups, List.mem_iff_getElem?]
  exact exists_congr fun i => List.getElem?_zip_eq_some

/-! ## Counts -/

/-- How often a concept is a member of a relation, side by side. -/
theorem Kept.membershipCount_eq (ho : o.Kept) (hr : o.relations.get? name = some r) (x : String) :
    membershipCount r x =
      (r.groups.countP (fun g => o.covers g.1 x) + r.groups.countP fun g => o.covers g.2 x) +
      (r.rules.countP (fun rule => rule.domains.names x) +
        r.rules.countP fun rule => rule.targets.names x) := by
  rw [membershipCount, countP_flatMap_pair, countP_flatMap_pair]
  congr 2
  · exact List.countP_congr fun g hg => by rw [(ho.has_views hr hg).1]
  · exact List.countP_congr fun g hg => by rw [(ho.has_views hr hg).2]

theorem Named.get?_of_mem_values (hn : o.Named) (hr : r ∈ o.relations.values) :
    o.relations.get? r.name = some r := by
  obtain ⟨k, hk⟩ := Table.mem_values_iff.mp hr
  rw [hn k r hk, hk]

theorem Named.names_nodup (hn : o.Named) : (o.relations.values.map (·.name)).Nodup := by
  have hnames : o.relations.values.map (·.name) = o.relations.keys := by
    rw [Table.values, Table.keys, List.map_map]
    exact List.map_congr_left fun e he => hn e.1 e.2 (Table.get?_eq_some_of_mem he)
  rw [hnames]
  exact Table.keys_nodup o.relations

/-- Relations that a concept is no member of add nothing to its memberships. -/
theorem membershipsOf_eq (o : Ontology) (x : String) :
    o.membershipsOf x = (o.relations.values.filter fun r => membershipCount r x ≠ 0).foldl
      (fun t r => t.alter r.name fun m => m.getD 0 + membershipCount r x) ∅ := by
  rw [List.foldl_filter, membershipsOf]
  congr 1
  funext t r
  cases hcount : membershipCount r x with
  | zero => rfl
  | succ n => simp

/-- Every relation adds to the memberships of a concept once, under its own name. -/
theorem Named.getD_membershipsOf (hn : o.Named) (hr : o.relations.get? name = some r) (x : String) :
    ((o.membershipsOf x).get? name).getD 0 = membershipCount r x := by
  have hdistinct :
      ((o.relations.values.filter fun r => membershipCount r x ≠ 0).map (·.name)).Nodup :=
    hn.names_nodup.sublist (List.filter_sublist.map _)
  rw [membershipsOf_eq,
    Table.get?_foldl_alter (f := fun r m => m.getD 0 + membershipCount r x) hdistinct]
  cases hfind : (o.relations.values.filter fun r => membershipCount r x ≠ 0).find?
      fun r => r.name = name with
  | some s =>
      have hs := List.mem_of_mem_filter (List.mem_of_find?_eq_some hfind)
      have hname : s.name = name := by simpa using List.find?_some hfind
      have hget := hn.get?_of_mem_values hs
      rw [hname, hr, Option.some.injEq] at hget
      rw [hget]
      exact Nat.zero_add _
  | none =>
      -- the relation is left out only if it counts nothing
      by_contra hcount
      refine List.find?_eq_none.mp hfind r (List.mem_filter.mpr ⟨?_, ?_⟩) ?_
      · exact Table.mem_values_iff.mpr ⟨name, hr⟩
      · exact decide_eq_true (Ne.symm hcount)
      · exact decide_eq_true (hn name r hr)

/-- In an ontology that changes have led to, a relation may hold between two concepts if, for some
place, existing bases of the domain and of the target at that place are the concepts or lie above
them.  A concept has counted, for each relation, the groups on either side that stand for it and the
sides of rules that name it or an instance of it. -/
theorem memberships_exact (h : o.Reachable) (hr : o.relations.get? name = some r) :
    (∀ d t, r.between d t = true ↔ ∃ (i : Nat) (gd gt : Group),
      r.domains[i]? = some gd ∧ r.targets[i]? = some gt ∧
      (∃ b, gd.bases.has b = true ∧ o.hasConcept b = true ∧ o.isA d b = true) ∧
      ∃ b, gt.bases.has b = true ∧ o.hasConcept b = true ∧ o.isA t b = true) ∧
    ∀ x c, o.concepts.get? x = some c →
      (c.memberships.get? name).getD 0 =
        (r.groups.countP (fun g => o.covers g.1 x) + r.groups.countP fun g => o.covers g.2 x) +
        (r.rules.countP (fun rule => rule.domains.names x) +
          r.rules.countP fun rule => rule.targets.names x) := by
  have ho := h.kept
  refine ⟨fun d t => (ho.between_iff hr d t).trans ⟨?_, ?_⟩, fun x c hc => ?_⟩
  · rintro ⟨gd, gt, hg, hd, ht⟩
    obtain ⟨i, hdomain, htarget⟩ := mem_groups_iff.mp hg
    exact ⟨i, gd, gt, hdomain, htarget, covers_iff.mp hd, covers_iff.mp ht⟩
  · rintro ⟨i, gd, gt, hdomain, htarget, hd, ht⟩
    exact ⟨gd, gt, mem_groups_iff.mpr ⟨i, hdomain, htarget⟩, covers_iff.mpr hd, covers_iff.mpr ht⟩
  · rw [ho.counted x c hc, ho.named.getD_membershipsOf hr, ho.linked.names hc,
      ho.membershipCount_eq hr]

/-- Vehicles that carry cargo, which is named before it exists, and cars.  One boat is known to
carry cargo. -/
def transport : Ontology :=
  let carries : Relation :=
    { name := "carries"
      domains := [{ bases := KeySet.ofList ["Vehicle"] }]
      targets := [{ bases := KeySet.ofList ["Cargo", "Car"] }] }
  let rule := Rule.simple .nil 1 [.inst ⟨"Boat", "Argo"⟩] [.concept "Cargo"] true
  let cargo : Concept := { name := "Cargo", category := .dynamic }
  let o := (exec (addConcept cargo) (exec (addRelation carries) vehicles).2).2
  (exec (addRule "carries" rule) o).2

theorem reachable_transport : transport.Reachable := by
  refine ((reachable_vehicles.addRelation ?_).addConcept _).addRule _ ?_
  · exact fun rule hrule => nomatch hrule
  · exact fun c hc => nomatch hc

/-- A boat may carry cargo, as it is a vehicle, and is a member twice: as a vehicle, and because of
the boat in the rule. -/
theorem memberships_transport : ∃ r c,
    transport.relations.get? "carries" = some r ∧ transport.concepts.get? "Boat" = some c ∧
      r.between "Boat" "Cargo" = true ∧ (c.memberships.get? "carries").getD 0 = 2 := by
  -- everything about this ontology at once, so that it is computed once
  obtain ⟨hcarries, hboat, hvehicle, hcargo, hisA, hself, hbases, hcount⟩ :
      transport.relations.contains "carries" = true ∧ transport.hasConcept "Boat" = true ∧
      transport.hasConcept "Vehicle" = true ∧ transport.hasConcept "Cargo" = true ∧
      transport.isA "Boat" "Vehicle" = true ∧ transport.isA "Cargo" "Cargo" = true ∧
      ((transport.relations.get? "carries").map fun r =>
        (r.domains[0]?.map (·.bases), r.targets[0]?.map (·.bases))) =
          some (some (KeySet.ofList ["Vehicle"]), some (KeySet.ofList ["Cargo", "Car"])) ∧
      ((transport.relations.get? "carries").map fun r =>
        (r.groups.countP (fun g => transport.covers g.1 "Boat") +
          r.groups.countP fun g => transport.covers g.2 "Boat") +
        (r.rules.countP (fun rule => rule.domains.names "Boat") +
          r.rules.countP fun rule => rule.targets.names "Boat")) = some 2 := by
    decide +kernel
  obtain ⟨r, hr⟩ := Table.contains_iff.mp hcarries
  obtain ⟨c, hc⟩ := hasConcept_iff.mp hboat
  obtain ⟨hbetween, hcounts⟩ := memberships_exact reachable_transport hr
  rw [hr, Option.map_some, Option.some.injEq, Prod.mk.injEq] at hbases
  rw [hr, Option.map_some, Option.some.injEq] at hcount
  obtain ⟨gd, hd, hdomain⟩ := Option.map_eq_some_iff.mp hbases.1
  obtain ⟨gt, ht, htarget⟩ := Option.map_eq_some_iff.mp hbases.2
  refine ⟨r, c, hr, hc, (hbetween _ _).mpr ⟨0, gd, gt, hd, ht, ⟨"Vehicle", ?_, hvehicle, hisA⟩,
    "Cargo", ?_, hcargo, hself⟩, (hcounts "Boat" c hc).trans hcount⟩
  · rw [hdomain, KeySet.has_ofList]
    rfl
  · rw [htarget, KeySet.has_ofList]
    rfl

end Ontology

end Credence
