import Credence.Proofs.Ontology.Memberships

/-!
# Taking an edge back

An edge that is added reaches far: the child and everything below it inherit more, views grow, and
memberships with them.  But nothing more than the edge is declared anew, at both ends if both exist
and at the child alone if the parent is yet to come.  In an ontology that changes have led to the
two ends agree, so an edge that is new to the child is new to the parent as well, and removing it
leaves what was declared before (`Linked.parted_joined`).  All else follows from that.
-/

namespace Credence.Ontology

variable {o o' : Ontology} {child parent : String} {c : Concept}

/-- An edge that goes in as a new one was not declared before, and nothing else is declared with
it. -/
theorem exec_addParent_eq_ok (h : exec (addParent child parent) o = (.ok true, o')) :
    ∃ c, o.concepts.get? child = some c ∧ c.parents.has parent = false ∧
      o' = (o.joined child parent).propagate child := by
  unfold addParent at h
  rw [exec_bind, exec_theConcept] at h
  cases hc : o.concepts.get? child with
  | none =>
      rw [hc] at h
      nomatch h
  | some c =>
      rw [hc] at h
      dsimp only at h
      rw [exec_bind_ok (exec_get o)] at h
      split at h
      · rw [exec_violates_bind] at h
        nomatch h
      · change (Except.ok (!c.parents.has parent), if (!c.parents.has parent) = true then
          (o.joined child parent).propagate child else o.joined child parent) = _ at h
        cases hparent : c.parents.has parent with
        | true =>
            rw [hparent] at h
            nomatch h
        | false =>
            rw [hparent] at h
            cases h
            exact ⟨c, rfl, hparent, rfl⟩

/-- An edge that is there can be removed. -/
theorem exec_removeParent (hc : o.concepts.get? child = some c)
    (hparent : c.parents.has parent = true) :
    exec (removeParent child parent) o = (.ok true, (o.parted child parent).propagate child) := by
  unfold removeParent
  rw [exec_bind, exec_theConcept, hc]
  change (Except.ok (c.parents.has parent), if c.parents.has parent = true then
    (o.parted child parent).propagate child else o.parted child parent) = _
  rw [hparent, if_pos rfl]

/-- The child has the edge that it was given. -/
theorem has_parents_joined (hc : o.concepts.get? child = some c) (parent : String) :
    ∃ d, (o.joined child parent).concepts.get? child = some d ∧ d.parents.has parent = true := by
  rw [joined_eq, get?_rewired, hc, Option.map_some]
  refine ⟨_, rfl, ?_⟩
  rw [if_pos rfl, KeySet.has_add, decide_eq_true rfl, Bool.true_or]

/-- If an ontology that changes have led to takes a new edge, to a parent that exists or is yet to
come, the edge can be removed again, and the ontology is what it was: all that is declared,
inherited, viewed and counted. -/
theorem removeParent_addParent (h : o.Reachable)
    (hadded : exec (addParent child parent) o = (.ok true, o')) :
    exec (removeParent child parent) o' = (.ok true, o) := by
  obtain ⟨c, hc, hnew, hpropagated⟩ := exec_addParent_eq_ok hadded
  have hdeclared : o'.declared = (o.joined child parent).declared := by
    rw [hpropagated, declared_propagate]
  obtain ⟨d, hd, hjoined⟩ := has_parents_joined hc parent
  obtain ⟨d', hd', heq⟩ := exists_of_declared_eq hdeclared.symm hd
  have hthere : d'.parents.has parent = true := by
    rw [Concept.parents_eq_of_shape (Concept.shape_eq_of_declared heq), hjoined]
  have hremoved := exec_removeParent hd' hthere
  have hback : ((o'.parted child parent).propagate child).Kept := by
    have hreachable := (h.addParent child parent).removeParent child parent
    rw [hadded, hremoved] at hreachable
    exact hreachable.kept
  -- both ontologies are up to date, so it is enough that they declare the same
  rw [hremoved, hback.eq_of_declared h.kept ?_ fun n => ?_]
  · calc ((o'.parted child parent).propagate child).declared
        = (o'.parted child parent).declared := declared_propagate _ _
      _ = ((o.joined child parent).parted child parent).declared := by
          rw [parted_eq, parted_eq, declared_rewired_congr hdeclared]
      _ = o.declared := by rw [h.kept.linked.parted_joined hc hnew]
  · have hjoin : (o.joined child parent).relations = o.relations := by
      rw [joined_eq]
      rfl
    have hpart : (o'.parted child parent).relations = o'.relations := by
      rw [parted_eq]
      rfl
    rw [get?_relations_propagate, hpart, hpropagated, get?_relations_propagate, hjoin]

/-- As a vehicle, cargo may carry cargo.  It may not any more when it is no vehicle, and freight,
which does not exist, comes and goes as easily. -/
theorem removeParent_addParent_cargo :
    let loaded := (exec (addParent "Cargo" "Vehicle") transport).2
    (loaded.relations.get? "carries").any (fun r => r.between "Cargo" "Cargo") = true ∧
      (transport.relations.get? "carries").any (fun r => r.between "Cargo" "Cargo") = false ∧
      transport.hasConcept "Freight" = false ∧
      ∀ parent ∈ ["Vehicle", "Freight"], ∃ o, exec (addParent "Cargo" parent) transport =
        (.ok true, o) ∧ exec (removeParent "Cargo" parent) o = (.ok true, transport) := by
  intro loaded
  obtain ⟨hloaded, hbefore, hmissing, hadded⟩ :
      (loaded.relations.get? "carries").any (fun r => r.between "Cargo" "Cargo") = true ∧
      (transport.relations.get? "carries").any (fun r => r.between "Cargo" "Cargo") = false ∧
      transport.hasConcept "Freight" = false ∧
      ∀ parent ∈ ["Vehicle", "Freight"],
        (exec (addParent "Cargo" parent) transport).1.toOption = some true := by decide +kernel
  refine ⟨hloaded, hbefore, hmissing, fun parent hparent => ?_⟩
  have hnew := hadded parent hparent
  generalize hrun : exec (addParent "Cargo" parent) transport = run at hnew
  obtain ⟨outcome, o⟩ := run
  cases outcome with
  | error e => nomatch hnew
  | ok new =>
      obtain rfl := Option.some.inj hnew
      exact ⟨o, rfl, removeParent_addParent reachable_transport hrun⟩

end Credence.Ontology
