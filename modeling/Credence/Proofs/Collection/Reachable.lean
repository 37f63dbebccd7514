import Credence.Collection.Reachable
import Credence.Proofs.Collection.Table
import Mathlib.Data.List.Perm.Subperm
import Mathlib.Logic.Relation

/-!
# The search reaches what lies at the end of a path

`KeySet.explore` is given a number of steps.  Each step takes one node off the stack and puts the
new ones on, so the nodes on the stack and those not yet seen are together one fewer after it.  With
as many steps as there are of these at first, the stack is empty at the end.

Every step keeps the search `Followed`: the edges of all that was seen have been followed, but for
what is on the stack.  With an empty stack that says that what was seen is closed under the edges.
Conversely a step puts only such nodes on the stack as an edge leads to, so with any number of steps
nothing is seen but what lies at the end of a path (`transGen_of_has_explore`).
-/

section Reachable

open Relation (TransGen ReflTransGen)

namespace Credence.KeySet

variable {κ : Type} [Ord κ] [Std.TransOrd κ] [Std.LawfulEqOrd κ] [DecidableEq κ]
variable {next : κ → List κ} {nodes : List κ}

/-- The nodes not yet seen. -/
def unseen (nodes : List κ) (seen : KeySet κ) : List κ := nodes.filter fun k => !has seen k

/-- The new nodes of a step were not seen before it and are seen after it. -/
theorem length_fresh_add_unseen_le (hnodes : nodes.Nodup) (seen : KeySet κ) {fresh : List κ}
    (hfresh : fresh.Nodup) (hsub : ∀ k ∈ fresh, k ∈ nodes ∧ has seen k = false) :
    fresh.length + (unseen nodes (addAll seen fresh)).length ≤ (unseen nodes seen).length := by
  have hdisjoint : ∀ a ∈ fresh, ∀ b ∈ unseen nodes (addAll seen fresh), a ≠ b := by
    rintro a ha b hb rfl
    have hb := (List.mem_filter.mp hb).2
    simp [has_addAll, ha] at hb
  have hnodup : (fresh ++ unseen nodes (addAll seen fresh)).Nodup :=
    List.nodup_append.mpr ⟨hfresh, hnodes.filter _, hdisjoint⟩
  have hsubset : fresh ++ unseen nodes (addAll seen fresh) ⊆ unseen nodes seen := by
    intro k hk
    rcases List.mem_append.mp hk with hk | hk
    · obtain ⟨hnode, hseen⟩ := hsub k hk
      exact List.mem_filter.mpr ⟨hnode, by rw [hseen]; rfl⟩
    · obtain ⟨hnode, hseen⟩ := List.mem_filter.mp hk
      refine List.mem_filter.mpr ⟨hnode, ?_⟩
      simp only [has_addAll, Bool.not_or, Bool.and_eq_true] at hseen
      exact hseen.2
  have hle := (List.subperm_of_subset hnodup hsubset).length_le
  rwa [List.length_append] at hle

/-- The edges of the start and of all that was seen have been followed, or are on the stack. -/
def Followed (next : κ → List κ) (start : κ) (stack : List κ) (seen : KeySet κ) : Prop :=
  ∀ x, x = start ∨ has seen x = true → x ∈ stack ∨ ∀ y ∈ next x, has seen y = true

theorem followed_step {start current : κ} {stack fresh : List κ} {seen : KeySet κ}
    (hfresh : ∀ k, k ∈ fresh ↔ k ∈ next current ∧ has seen k = false)
    (h : Followed next start (current :: stack) seen) :
    Followed next start (fresh ++ stack) (addAll seen fresh) := by
  intro x hx
  simp only [has_addAll, Bool.or_eq_true, decide_eq_true_eq] at hx ⊢
  have hseen : x = start ∨ has seen x = true → x ∈ fresh ++ stack ∨
      ∀ y ∈ next x, y ∈ fresh ∨ has seen y = true := by
    intro hx
    rcases h x hx with hstack | hclosed
    · rcases List.mem_cons.mp hstack with rfl | hstack
      · refine Or.inr fun y hy => ?_
        cases hy' : has seen y with
        | true => exact Or.inr rfl
        | false => exact Or.inl ((hfresh y).mpr ⟨hy, hy'⟩)
      · exact Or.inl (List.mem_append_right fresh hstack)
    · exact Or.inr fun y hy => Or.inr (hclosed y hy)
  rcases hx with hx | hx | hx
  · exact hseen (Or.inl hx)
  · exact Or.inl (List.mem_append_left stack hx)
  · exact hseen (Or.inr hx)

/-- A search with enough steps ends with a set that is closed under the edges. -/
theorem explore_closed (hnodes : nodes.Nodup) (hnext : ∀ k, ∀ x ∈ next k, x ∈ nodes)
    (hdistinct : ∀ k, (next k).Nodup) (start : κ) (steps : Nat) (stack : List κ) (seen : KeySet κ)
    (hsteps : stack.length + (unseen nodes seen).length ≤ steps)
    (hfollowed : Followed next start stack seen) :
    ∀ x, x = start ∨ has (explore next steps stack seen) x = true →
      ∀ y ∈ next x, has (explore next steps stack seen) y = true := by
  induction steps generalizing stack seen with
  | zero =>
      have hstack : stack = [] := List.length_eq_zero_iff.mp (by omega)
      intro x hx
      rcases hfollowed x hx with h | h
      · rw [hstack] at h
        exact absurd h List.not_mem_nil
      · exact h
  | succ steps ih =>
      cases stack with
      | nil =>
          intro x hx
          exact (hfollowed x hx).resolve_left List.not_mem_nil
      | cons current stack =>
          unfold explore
          generalize hfresh : (next current).filter (fun k => !has seen k) = fresh
          have hmem : ∀ k, k ∈ fresh ↔ k ∈ next current ∧ has seen k = false := by
            intro k
            rw [← hfresh, List.mem_filter, Bool.not_eq_true']
          have hfewer := length_fresh_add_unseen_le hnodes seen
            (hfresh ▸ (hdistinct current).filter _) fun k hk =>
              ⟨hnext current k ((hmem k).mp hk).1, ((hmem k).mp hk).2⟩
          -- one node leaves the stack, and those that come on it leave the unseen
          refine ih (fresh ++ stack) (addAll seen fresh) ?_ (followed_step hmem hfollowed)
          rw [List.length_cons] at hsteps
          rw [List.length_append]
          omega

/-- Every other node at the end of a path is reached. -/
theorem has_reachable (hnodes : nodes.Nodup) (hnext : ∀ k, ∀ x ∈ next k, x ∈ nodes)
    (hdistinct : ∀ k, (next k).Nodup) {size : Nat} (hsize : nodes.length ≤ size) {start x : κ}
    (hpath : TransGen (fun a b => b ∈ next a) start x) (hx : x ≠ start) :
    has (reachable next size start) x = true := by
  have hunseen : (unseen nodes (Table.empty : KeySet κ)).length ≤ nodes.length :=
    List.length_filter_le _ _
  have hclosed := explore_closed hnodes hnext hdistinct start (size + 1) [start] Table.empty
    (by rw [List.length_singleton]; omega) fun y hy =>
      Or.inl (List.mem_singleton.mpr (hy.resolve_right (by simp)))
  have hseen : has (explore next (size + 1) [start] Table.empty) x = true := by
    clear hx
    induction hpath with
    | single hedge => exact hclosed start (Or.inl rfl) _ hedge
    | tail _ hedge ih => exact hclosed _ (Or.inr ih) _ hedge
  rw [reachable, has_remove, hseen, decide_eq_false hx]
  rfl

/-- What is seen lies at the end of a path. -/
theorem transGen_of_has_explore {start x : κ} (steps : Nat) (stack : List κ) (seen : KeySet κ)
    (hstack : ∀ y ∈ stack, ReflTransGen (fun a b => b ∈ next a) start y)
    (hseen : ∀ y, has seen y = true → TransGen (fun a b => b ∈ next a) start y)
    (hx : has (explore next steps stack seen) x = true) :
    TransGen (fun a b => b ∈ next a) start x := by
  induction steps generalizing stack seen with
  | zero => exact hseen x hx
  | succ steps ih =>
      cases stack with
      | nil => exact hseen x hx
      | cons current stack =>
          unfold explore at hx
          have hcurrent := hstack current List.mem_cons_self
          have hfresh : ∀ y ∈ (next current).filter fun k => !has seen k,
              TransGen (fun a b => b ∈ next a) start y := fun y hy =>
            TransGen.tail' hcurrent (List.mem_filter.mp hy).1
          refine ih _ _ (fun y hy => ?_) (fun y hy => ?_) hx
          · rcases List.mem_append.mp hy with hy | hy
            · exact (hfresh y hy).to_reflTransGen
            · exact hstack y (List.mem_cons_of_mem current hy)
          · rw [has_addAll, Bool.or_eq_true, decide_eq_true_eq] at hy
            exact hy.elim (hfresh y) (hseen y)

/-- What is reached lies at the end of a path. -/
theorem transGen_of_has_reachable {size : Nat} {start x : κ}
    (hx : has (reachable next size start) x = true) :
    TransGen (fun a b => b ∈ next a) start x := by
  rw [reachable, has_remove, Bool.and_eq_true] at hx
  refine transGen_of_has_explore (size + 1) [start] Table.empty (fun y hy => ?_)
    (fun y hy => by simp at hy) hx.2
  rw [List.mem_singleton.mp hy]

end Credence.KeySet

end Reachable
