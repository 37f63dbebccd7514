import Credence.Confidence.Weighing
import Credence.Proofs.Running
import Mathlib.Algebra.BigOperators.Group.List.Basic
import Mathlib.Algebra.Order.BigOperators.Group.List
import Mathlib.Algebra.Order.Field.Basic

/-!
# The loops of a rule and their formulas

A rule loses its strength condition by condition and its doubt scenario by scenario, and either loop
ends as soon as nothing is left.  In exact arithmetic the ends make no difference.  A loss that has
reached one only grows (`lost_nonneg`), so what is left of the confidence stays at nothing
(`succeeds_inScenario`); a doubt that has reached zero stays there, whatever it is multiplied with
(`succeeds_overScenarios`).

Outcomes come from computations on a state.  All that matters is that each of them is sure to
succeed with its entry of a table (`Succeeds`).
-/

namespace Credence.Weighing

variable {K : Type} [Field K] {γ σ τ : Type}

/-- What conditions take away if all of them are looked at. -/
def lost (outcome salience : γ → K) (conditions : List γ) : K :=
  (conditions.map fun c => (1 - outcome c) * salience c).sum

/-- The doubt that scenarios leave if all of them are looked at. -/
def doubtAfter (strength : σ → K) (scenarios : List σ) : K :=
  (scenarios.map fun s => 1 - strength s).prod

variable {outcome salience : γ → K} {strength : σ → K}

@[simp] theorem lost_cons (c : γ) (rest : List γ) :
    lost outcome salience (c :: rest) =
      (1 - outcome c) * salience c + lost outcome salience rest := List.sum_cons

@[simp] theorem doubtAfter_cons (s : σ) (rest : List σ) :
    doubtAfter strength (s :: rest) = (1 - strength s) * doubtAfter strength rest := List.prod_cons

/-- The order of the conditions does not matter. -/
theorem lost_perm {conditions conditions' : List γ} (h : conditions.Perm conditions') :
    lost outcome salience conditions = lost outcome salience conditions' := (h.map _).sum_eq

/-- The order of the scenarios does not matter. -/
theorem doubtAfter_perm {scenarios scenarios' : List σ} (h : scenarios.Perm scenarios') :
    doubtAfter strength scenarios = doubtAfter strength scenarios' := (h.map _).prod_eq

variable [LinearOrder K]

/-- The strength in one scenario, at one go. -/
def remaining (confidence : K) (outcome salience : γ → K) (conditions : List γ) : K :=
  confidence * max 0 (1 - lost outcome salience conditions)

variable [IsStrictOrderedRing K]

/-! ## Bounds -/

theorem lost_nonneg {conditions : List γ} (houtcome : ∀ c ∈ conditions, outcome c ≤ 1)
    (hsalience : ∀ c ∈ conditions, 0 ≤ salience c) : 0 ≤ lost outcome salience conditions := by
  refine List.sum_nonneg fun x hx => ?_
  obtain ⟨c, hc, rfl⟩ := List.mem_map.mp hx
  exact mul_nonneg (sub_nonneg.mpr (houtcome c hc)) (hsalience c hc)

theorem remaining_mem {confidence : K} (hconfidence : confidence ∈ Set.Icc 0 1)
    {conditions : List γ} (houtcome : ∀ c ∈ conditions, outcome c ≤ 1)
    (hsalience : ∀ c ∈ conditions, 0 ≤ salience c) :
    remaining confidence outcome salience conditions ∈ Set.Icc 0 1 := by
  have hleft : max 0 (1 - lost outcome salience conditions) ≤ 1 :=
    max_le zero_le_one (sub_le_self 1 (lost_nonneg houtcome hsalience))
  exact ⟨mul_nonneg hconfidence.1 (le_max_left 0 _),
    mul_le_one₀ hconfidence.2 (le_max_left 0 _) hleft⟩

theorem doubtAfter_mem {scenarios : List σ} (h : ∀ s ∈ scenarios, strength s ∈ Set.Icc 0 1) :
    doubtAfter strength scenarios ∈ Set.Icc 0 1 := by
  refine List.prod_induction (· ∈ Set.Icc 0 1)
    (fun x y hx hy => ⟨mul_nonneg hx.1 hy.1, mul_le_one₀ hx.2 hy.1 hy.2⟩)
    ⟨zero_le_one, le_rfl⟩ fun x hx => ?_
  obtain ⟨s, hs, rfl⟩ := List.mem_map.mp hx
  exact ⟨sub_nonneg.mpr (h s hs).2, sub_le_self 1 (h s hs).1⟩

/-! ## The loops -/

variable {P : τ → Prop}

/-- The induction carries that less than everything has been lost so far. -/
theorem succeeds_inScenario (confidence : K) {compute : γ → ExceptT Error (StateM τ) K}
    {conditions : List γ} (hcompute : ∀ c ∈ conditions, Succeeds P (compute c) (· = outcome c))
    (houtcome : ∀ c ∈ conditions, outcome c ≤ 1) (hsalience : ∀ c ∈ conditions, 0 ≤ salience c)
    {loss : K} (hloss : loss < 1) :
    Succeeds P (inScenario confidence compute salience loss conditions)
      (· = confidence * max 0 (1 - (loss + lost outcome salience conditions))) := by
  induction conditions generalizing loss with
  | nil =>
      refine succeeds_pure ?_
      rw [lost, List.map_nil, List.sum_nil, add_zero, max_eq_right (sub_nonneg.mpr hloss.le)]
  | cons c rest ih =>
      rw [List.forall_mem_cons] at hcompute houtcome hsalience
      unfold inScenario
      refine hcompute.1.bind fun x hx => ?_
      subst hx
      dsimp only
      rw [lost_cons, ← add_assoc]
      split_ifs with hall
      · -- the rest of the sum takes away even more
        have hmore : 1 ≤ loss + (1 - outcome c) * salience c + lost outcome salience rest :=
          hall.trans (le_add_of_nonneg_right (lost_nonneg houtcome.2 hsalience.2))
        refine succeeds_pure ?_
        rw [max_eq_left (sub_nonpos.mpr hmore), mul_zero]
      · exact ih hcompute.2 houtcome.2 hsalience.2 (not_le.mp hall)

/-- The induction carries that some doubt is left so far. -/
theorem succeeds_overScenarios {compute : σ → ExceptT Error (StateM τ) K} {scenarios : List σ}
    (hcompute : ∀ s ∈ scenarios, Succeeds P (compute s) (· = strength s))
    (hstrength : ∀ s ∈ scenarios, strength s ≤ 1) {doubt : K} (hdoubt : 0 < doubt) :
    Succeeds P (overScenarios compute doubt scenarios)
      (· = 1 - doubt * doubtAfter strength scenarios) := by
  induction scenarios generalizing doubt with
  | nil =>
      refine succeeds_pure ?_
      rw [doubtAfter, List.map_nil, List.prod_nil, mul_one]
  | cons s rest ih =>
      rw [List.forall_mem_cons] at hcompute hstrength
      unfold overScenarios
      refine hcompute.1.bind fun x hx => ?_
      subst hx
      dsimp only
      rw [doubtAfter_cons, ← mul_assoc]
      split_ifs with hnone
      · -- there is no doubt left to be scaled
        have hzero : doubt * (1 - strength s) = 0 :=
          hnone.antisymm (mul_nonneg hdoubt.le (sub_nonneg.mpr hstrength.1))
        refine succeeds_pure ?_
        rw [hzero, zero_mul, sub_zero]
      · exact ih hcompute.2 hstrength.2 (not_le.mp hnone)

end Credence.Weighing
