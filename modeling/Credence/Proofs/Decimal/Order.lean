import Mathlib

/-!
# The order of numbers

Comparisons of numbers look at their unpacked form: a sign, an exponent and a mantissa.  The form
gives each number that is defined a *rank* in a linear order, the two zeros the same one, and on
defined numbers every comparison is the comparison of ranks.  An undefined number compares with
nothing.  What is known of linear orders then carries over to numbers.
-/

namespace Credence.Decimal

open Float.Model (UnpackedFloat)
open Float.Model.UnpackedFloat (Sign)

/-- Ranks are compared by kind (infinite or finite, below or above zero), then by exponent, then by
mantissa. -/
abbrev Rank := ℤ ×ₗ ℤ ×ₗ ℤ

/-- The rank of kind `k`, exponent `e` and mantissa `m`. -/
def Rank.of (k e m : ℤ) : Rank := toLex (k, toLex (e, m))

theorem Rank.compare_of (k k' e e' m m' : ℤ) :
    compare (Rank.of k e m) (Rank.of k' e' m') =
      (compare k k').then ((compare e e').then (compare m m')) := by
  rw [Prod.Lex.compare_def]
  show (compare k k').then (compare (toLex (e, m)) (toLex (e', m'))) = _
  rw [Prod.Lex.compare_def]
  rfl

/-- The rank of an unpacked number.  Below zero the larger magnitude comes first. -/
def unpackedRank : UnpackedFloat → Rank
  | .notANumber => .of 0 0 0
  | .infinity .positive => .of 2 0 0
  | .infinity .negative => .of (-2) 0 0
  | .zero _ => .of 0 0 0
  | .finite .positive m e _ => .of 1 e m
  | .finite .negative m e _ => .of (-1) (-e) (-m)

/-- The rank of a number. -/
def rank (x : Float) : Rank := unpackedRank x.toModel.unpack

theorem compare_neg (a b : ℤ) : compare (-a) (-b) = compare b a := by
  rcases lt_trichotomy a b with hlt | rfl | hgt
  · rw [compare_gt_iff_gt.mpr hlt, compare_gt_iff_gt.mpr (by omega)]
  · rw [compare_eq_iff_eq.mpr rfl, compare_eq_iff_eq.mpr rfl]
  · rw [compare_lt_iff_lt.mpr hgt, compare_lt_iff_lt.mpr (by omega)]

theorem compare_cast (a b : ℕ) : compare (a : ℤ) (b : ℤ) = compare a b := by
  rcases lt_trichotomy a b with hlt | rfl | hgt
  · rw [compare_lt_iff_lt.mpr hlt, compare_lt_iff_lt.mpr (by omega)]
  · rw [compare_eq_iff_eq.mpr rfl, compare_eq_iff_eq.mpr rfl]
  · rw [compare_gt_iff_gt.mpr hgt, compare_gt_iff_gt.mpr (by omega)]

/-- Unpacked numbers compare as their ranks do, unless one of them is undefined. -/
theorem unpacked_compare (u v : UnpackedFloat) :
    u.compare v =
      if u.isNaN || v.isNaN then none else some (compare (unpackedRank u) (unpackedRank v)) := by
  cases u with
  | notANumber => rfl
  | infinity s =>
      cases v with
      | notANumber => cases s <;> rfl
      | infinity t => cases s <;> cases t <;> rfl
      | zero t => cases s <;> rfl
      | finite t m e hm => cases s <;> cases t <;> rfl
  | zero s =>
      cases v with
      | notANumber => rfl
      | infinity t => cases t <;> rfl
      | zero t => rfl
      | finite t m e hm => cases t <;> rfl
  | finite s m e hm =>
      cases v with
      | notANumber => cases s <;> rfl
      | infinity t => cases s <;> cases t <;> rfl
      | zero t => cases s <;> rfl
      | finite t m' e' hm' =>
          cases s <;> cases t
          · show some ((compare e e').then (compare m m')).swap =
              some (compare (Rank.of (-1) (-e) (-m)) (Rank.of (-1) (-e') (-m')))
            rw [Rank.compare_of, compare_neg 1 1, compare_neg e e', compare_neg m m', compare_cast,
              Ordering.swap_then, ← Std.OrientedOrd.eq_swap, ← Std.OrientedOrd.eq_swap]
            rfl
          · rfl
          · rfl
          · show some ((compare e e').then (compare m m')) =
              some (compare (Rank.of 1 e m) (Rank.of 1 e' m'))
            rw [Rank.compare_of, compare_cast]
            rfl

/-! ## Comparisons of numbers -/

variable {x y : Float}

theorem compare_eq_rank (hx : x.isNaN = false) (hy : y.isNaN = false) :
    x.toModel.unpack.compare y.toModel.unpack = some (compare (rank x) (rank y)) := by
  have hx' : x.toModel.unpack.isNaN = false := hx
  have hy' : y.toModel.unpack.isNaN = false := hy
  rw [unpacked_compare, hx', hy']
  rfl

theorem compare_eq_none (h : x.isNaN = true ∨ y.isNaN = true) :
    x.toModel.unpack.compare y.toModel.unpack = none := by
  rw [unpacked_compare]
  apply if_pos
  rw [Bool.or_eq_true]
  exact h

theorem lt_iff_compare : x < y ↔ x.toModel.unpack.compare y.toModel.unpack = some .lt := by
  constructor
  · intro h
    have hmodel : x.toModel < y.toModel := of_decide_eq_true h
    exact eq_of_beq hmodel
  · intro h
    apply decide_eq_true
    show (x.toModel.unpack.compare y.toModel.unpack == some .lt) = true
    rw [h]
    rfl

theorem le_iff_compare : x ≤ y ↔ (x.toModel.unpack.compare y.toModel.unpack).any (·.isLE) = true :=
  ⟨fun h => (of_decide_eq_true h : x.toModel ≤ y.toModel), fun h => decide_eq_true h⟩

theorem beq_iff_compare : (x == y) = true ↔ x.toModel.unpack.compare y.toModel.unpack = some .eq := by
  constructor
  · intro h
    exact eq_of_beq h
  · intro h
    show (x.toModel.unpack.compare y.toModel.unpack == some .eq) = true
    rw [h]
    rfl

theorem not_isNaN_of_le (h : x ≤ y) : y.isNaN = false := by
  by_contra hnan
  rw [Bool.not_eq_false] at hnan
  rw [le_iff_compare, compare_eq_none (.inr hnan)] at h
  nomatch h

theorem lt_iff_rank (hx : x.isNaN = false) (hy : y.isNaN = false) : x < y ↔ rank x < rank y := by
  rw [lt_iff_compare, compare_eq_rank hx hy, Option.some_inj, compare_lt_iff_lt]

theorem le_iff_rank (hx : x.isNaN = false) (hy : y.isNaN = false) : x ≤ y ↔ rank x ≤ rank y := by
  rw [le_iff_compare, compare_eq_rank hx hy, Option.any_some, Ordering.isLE_iff_ne_gt,
    ← ne_eq, compare_le_iff_le]

theorem beq_iff_rank (hx : x.isNaN = false) (hy : y.isNaN = false) :
    (x == y) = true ↔ rank x = rank y := by
  rw [beq_iff_compare, compare_eq_rank hx hy, Option.some_inj, compare_eq_iff_eq]

end Credence.Decimal
