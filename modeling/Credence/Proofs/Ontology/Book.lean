import Credence.Proofs.Ontology.Reachable

/-!
# Rules that stay

The *book* of an ontology has the rules of each relation, in their order and without their views.
What changes concepts may change views and memberships, and leaves the book as it is.
-/

namespace Credence.Ontology

variable {o o' : Ontology} {name : String} {α : Type}

/-- The rules of the relations, without their views. -/
def book (o : Ontology) : Table String (List Rule) :=
  o.relations.mapValues fun _ r => r.rules.map Rule.declared

theorem get?_book (o : Ontology) (name : String) :
    o.book.get? name = (o.relations.get? name).map fun r => r.rules.map Rule.declared :=
  Table.get?_mapValues _ _ _

@[simp] theorem book_recount (o : Ontology) : o.recount.book = o.book := rfl

@[simp] theorem book_refresh (o : Ontology) : o.refresh.book = o.book := by
  refine Table.ext_get? fun name => ?_
  rw [get?_book, get?_book, relations_refresh, Table.get?_mapValues, Option.map_map]
  congr 1
  funext r
  exact congrArg Relation.rules (declared_refreshRelation o r)

@[simp] theorem book_cascade (o : Ontology) (names : List String) :
    (names.foldl cascade o).book = o.book :=
  foldl_cascade_keeps (g := book) (fun _ _ => rfl) names o

@[simp] theorem book_propagate (o : Ontology) (name : String) : (o.propagate name).book = o.book :=
  (book_refresh _).trans (book_cascade o [name])

theorem book_link (o : Ontology) (c : Concept) : (o.link c).book = o.book := by
  rw [link_eq]
  rfl

theorem book_unlink (o : Ontology) (name : String) (c : Concept) :
    (o.unlink name c).book = o.book := by
  rw [unlink_eq]
  rfl

theorem book_theConcept {f : Concept → Change α} (hf : ∀ c, (exec (f c) o).2.book = o.book) :
    (exec (theConcept name >>= f) o).2.book = o.book := by
  rw [exec_bind, exec_theConcept]
  cases o.concepts.get? name with
  | none => rfl
  | some c => exact hf c

theorem book_addConcept (o : Ontology) (c : Concept) : (exec (addConcept c) o).2.book = o.book := by
  unfold addConcept
  rw [exec_bind_ok (exec_get o)]
  dsimp only
  split
  · rw [exec_violates_bind]
  split
  · rw [exec_violates_bind]
  split
  · rw [exec_violates_bind]
  · exact (book_propagate _ _).trans (book_link o _)

theorem book_removeConcept (o : Ontology) (name : String) :
    (exec (removeConcept name) o).2.book = o.book := by
  refine book_theConcept fun c => ?_
  rw [exec_bind_ok (exec_get o)]
  dsimp only
  split
  · rw [exec_violates_bind]
  · calc (refresh (c.children.toList.foldl cascade
          (unlink { o with concepts := o.concepts.erase name } name c))).book
        = (unlink { o with concepts := o.concepts.erase name } name c).book :=
          (book_refresh _).trans (book_cascade _ _)
      _ = o.book := book_unlink _ name c

/-- Bringing up to date what depends on a concept, if it has to be, changes no rule. -/
theorem book_ite_propagate (o : Ontology) (b : Bool) (name : String) :
    (if b then o.propagate name else o).book = o.book := by
  cases b
  · rfl
  · exact book_propagate o name

theorem book_addParent (o : Ontology) (child parent : String) :
    (exec (addParent child parent) o).2.book = o.book := by
  refine book_theConcept fun c => ?_
  rw [exec_bind_ok (exec_get o)]
  dsimp only
  split
  · rw [exec_violates_bind]
  · exact book_ite_propagate _ _ child

theorem book_removeParent (o : Ontology) (child parent : String) :
    (exec (removeParent child parent) o).2.book = o.book := by
  refine book_theConcept fun c => ?_
  rw [exec_bind_ok (exec_get o)]
  exact book_ite_propagate _ _ child

theorem book_addAlias (o : Ontology) (concept other : String) :
    (exec (addAlias concept other) o).2.book = o.book := by
  refine book_theConcept fun c => ?_
  dsimp only
  split
  · exact book_propagate _ concept
  · rfl

theorem book_removeAlias (o : Ontology) (concept other : String) :
    (exec (removeAlias concept other) o).2.book = o.book := by
  refine book_theConcept fun c => ?_
  dsimp only
  split
  · exact book_propagate _ concept
  · rfl

theorem book_setProperty (o : Ontology) (concept key : String) (value : Value) :
    (exec (setProperty concept key value) o).2.book = o.book := by
  unfold setProperty
  dsimp only
  split
  · rw [exec_violates_bind]
  · exact book_theConcept fun c => book_propagate _ concept

theorem book_removeProperty (o : Ontology) (concept key : String) :
    (exec (removeProperty concept key) o).2.book = o.book := by
  refine book_theConcept fun c => ?_
  dsimp only
  split
  · exact book_propagate _ concept
  · rfl

theorem book_setFactory (o : Ontology) (concept : String) (factory : Factory) :
    (exec (setFactory concept factory) o).2.book = o.book :=
  book_theConcept fun _ => rfl

theorem book_importBundle (o : Ontology) (name : String) :
    (exec (importBundle name) o).2.book = o.book :=
  preserves_importBundle (P := fun o' => o'.book = o.book)
    (fun c o' h => (book_addConcept o' c).trans h) name o rfl

theorem book_rebuild (o : Ontology) : o.rebuild.book = o.book :=
  (book_refresh _).trans (book_cascade o _)

end Credence.Ontology
