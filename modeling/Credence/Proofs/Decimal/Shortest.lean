import Credence.Decimal.Layout
import Credence.Proofs.Decimal.Bits
import Mathlib.Algebra.Order.Field.Power
import Mathlib.Tactic.FieldSimp
import Mathlib.Tactic.Linarith
import Mathlib.Tactic.Positivity
import Mathlib.Tactic.Ring

/-!
# The shortest decimal lies in the interval of its number

The comparisons of `Decimal` are between integers.  Here they are read as what they say about
rational numbers: `m * 2 ^ q` and `digits * 10 ^ exponent`.

The search for the shortest decimal ends with a point that was found to lie in the interval, or, if
none was found, with the point at or below the number on the finest grid.  Seventeen digits make
that grid finer than a quarter of the unit of the number, so this point lies in the interval too.
-/

namespace Credence.Decimal

variable {a b c m n tries : Nat} {e k p q : Int} {d : Scaled} {i : Interval} {tie : Tie}

/-! ## Comparisons -/

theorem cast_twoPow (n : Nat) : (twoPow n : ℚ) = 2 ^ n := by
  unfold twoPow
  exact_mod_cast rfl

theorem cast_tenPow (n : Nat) : (tenPow n : ℚ) = 10 ^ n := by
  unfold tenPow
  exact_mod_cast rfl

/-- A power with an integer exponent as a quotient of powers, one of which is one. -/
theorem zpow_eq_div {x : ℚ} (hx : x ≠ 0) (p : Int) : x ^ p = x ^ p.toNat / x ^ (-p).toNat := by
  rw [eq_div_iff (pow_ne_zero _ hx), ← zpow_natCast, ← zpow_natCast, ← zpow_add₀ hx]
  congr 1
  omega

theorem leDecimal_iff :
    leDecimal a p b e = true ↔ (a : ℚ) * 2 ^ p ≤ b * 10 ^ e := by
  have hcast : leDecimal a p b e = true ↔
      (a : ℚ) * 2 ^ p.toNat * 10 ^ (-e).toNat ≤ b * 10 ^ e.toNat * 2 ^ (-p).toNat := by
    simp only [leDecimal, decide_eq_true_eq, ← cast_twoPow, ← cast_tenPow]
    exact_mod_cast Iff.rfl
  rw [hcast, zpow_eq_div two_ne_zero p, zpow_eq_div (by norm_num : (10 : ℚ) ≠ 0) e,
    ← mul_div_assoc, ← mul_div_assoc, div_le_div_iff₀ (by positivity) (by positivity)]

theorem decimalLe_iff :
    decimalLe b e a p = true ↔ (b : ℚ) * 10 ^ e ≤ a * 2 ^ p := by
  have hcast : decimalLe b e a p = true ↔
      (b : ℚ) * 10 ^ e.toNat * 2 ^ (-p).toNat ≤ a * 2 ^ p.toNat * 10 ^ (-e).toNat := by
    simp only [decimalLe, decide_eq_true_eq, ← cast_twoPow, ← cast_tenPow]
    exact_mod_cast Iff.rfl
  rw [hcast, zpow_eq_div two_ne_zero p, zpow_eq_div (by norm_num : (10 : ℚ) ≠ 0) e,
    ← mul_div_assoc, ← mul_div_assoc, div_le_div_iff₀ (by positivity) (by positivity)]

/-- The number that a decimal stands for. -/
def Scaled.value (d : Scaled) : ℚ := d.digits * 10 ^ d.exponent

/-! ## Intervals -/

/-- Whether a number lies in an interval. -/
def Interval.Contains (i : Interval) (r : ℚ) : Prop :=
  if i.closed then i.lower * 2 ^ i.exponent ≤ r ∧ r ≤ i.upper * 2 ^ i.exponent
  else i.lower * 2 ^ i.exponent < r ∧ r < i.upper * 2 ^ i.exponent

theorem Interval.holds_iff : i.holds d = true ↔ i.Contains d.value := by
  unfold Interval.holds Interval.Contains
  cases i.closed with
  | true => simp [leDecimal_iff, decimalLe_iff, Scaled.value]
  | false =>
      simp only [Bool.false_eq_true, if_false, Bool.and_eq_true, Bool.not_eq_true',
        ← Bool.not_eq_true, leDecimal_iff, decimalLe_iff, not_le, Scaled.value]

theorem Interval.Contains.lower_le {r : ℚ} (h : i.Contains r) : i.lower * 2 ^ i.exponent ≤ r := by
  unfold Interval.Contains at h
  split at h
  · exact h.1
  · exact h.1.le

theorem Interval.Contains.le_upper {r : ℚ} (h : i.Contains r) : r ≤ i.upper * 2 ^ i.exponent := by
  unfold Interval.Contains at h
  split at h
  · exact h.2
  · exact h.2.le

theorem Interval.contains_of_lt {r : ℚ} (hlower : i.lower * 2 ^ i.exponent < r)
    (hupper : r < i.upper * 2 ^ i.exponent) : i.Contains r := by
  unfold Interval.Contains
  split
  · exact ⟨hlower.le, hupper.le⟩
  · exact ⟨hlower, hupper⟩

/-- A quarter unit in terms of the unit. -/
theorem quarter_unit (q : Int) : (2 : ℚ) ^ (q - 2) = 2 ^ q / 4 := by
  rw [zpow_sub₀ two_ne_zero]
  norm_num

/-- The interval of a number reaches a quarter of the unit to both sides at least. -/
theorem interval_contains (hm : 0 < m) {r : ℚ} (hlower : (m - 1 / 4) * 2 ^ q < r)
    (hupper : r < (m + 1 / 4) * 2 ^ q) : (interval m q).Contains r := by
  have hunit : (0 : ℚ) < 2 ^ q := by positivity
  refine Interval.contains_of_lt (lt_of_le_of_lt ?_ hlower) (lt_of_lt_of_le hupper ?_)
  · have hquarters : ((interval m q).lower : ℚ) ≤ 4 * m - 1 := by
      have hnat : (interval m q).lower + 1 ≤ 4 * m := by
        unfold interval
        dsimp only
        split <;> omega
      have hcast : ((interval m q).lower : ℚ) + 1 ≤ 4 * m := by exact_mod_cast hnat
      linarith
    show ((interval m q).lower : ℚ) * 2 ^ (q - 2) ≤ _
    rw [quarter_unit]
    nlinarith
  · show _ ≤ ((4 * m + 2 : Nat) : ℚ) * 2 ^ (q - 2)
    rw [quarter_unit]
    push_cast
    nlinarith

/-! ## Grids -/

theorem floorAt_le (m : Nat) (q k : Int) : (floorAt m q k : ℚ) * 10 ^ k ≤ m * 2 ^ q := by
  rw [← decimalLe_iff]
  unfold decimalLe floorAt
  rw [decide_eq_true_eq, Nat.mul_assoc]
  exact Nat.div_mul_le_self _ _

theorem lt_floorAt (m : Nat) (q k : Int) : (m : ℚ) * 2 ^ q < (floorAt m q k + 1) * 10 ^ k := by
  have hnot : decimalLe (floorAt m q k + 1) k m q ≠ true := by
    unfold decimalLe floorAt
    rw [ne_eq, decide_eq_true_eq, Nat.not_le, Nat.mul_assoc (_ + 1)]
    exact (Nat.lt_mul_div_succ _ (Nat.mul_pos (tenPow_pos _) (twoPow_pos _))).trans_eq
      (Nat.mul_comm _ _)
  rw [ne_eq, decimalLe_iff, not_le] at hnot
  exact_mod_cast hnot

theorem hit?_contains (h : hit? tie m q k = some d) : (interval m q).Contains d.value := by
  rw [← Interval.holds_iff]
  unfold hit? at h
  dsimp only at h
  cases hbelow : (interval m q).holds ⟨floorAt m q k, k⟩ with
  | true =>
      cases habove : (interval m q).holds ⟨floorAt m q k + 1, k⟩ with
      | true =>
          rw [hbelow, habove] at h
          obtain rfl := Option.some.inj h
          split
          · exact habove
          · exact hbelow
      | false =>
          rw [hbelow, habove] at h
          obtain rfl := Option.some.inj h
          exact hbelow
  | false =>
      cases habove : (interval m q).holds ⟨floorAt m q k + 1, k⟩ with
      | true =>
          rw [hbelow, habove] at h
          obtain rfl := Option.some.inj h
          exact habove
      | false =>
          rw [hbelow, habove] at h
          exact nomatch h

/-- If the finest grid has a point in the interval, the search ends in the interval. -/
theorem firstHit_contains
    (h : (interval m q).Contains (Scaled.value ⟨floorAt m q (k - tries), k - tries⟩)) :
    (interval m q).Contains (firstHit tie m q tries k).value := by
  induction tries generalizing k with
  | zero => simpa [firstHit] using h
  | succ tries ih =>
      unfold firstHit
      cases hhit : hit? tie m q k with
      | some d => exact hit?_contains hhit
      | none =>
          refine ih ?_
          have hk : k - 1 - (tries : Int) = k - (tries + 1 : Nat) := by
            push_cast
            ring
          rw [hk]
          exact h

theorem dropZeros_value (fuel : Nat) (d : Scaled) : (dropZeros fuel d).value = d.value := by
  induction fuel generalizing d with
  | zero => rfl
  | succ fuel ih =>
      unfold dropZeros
      split
      · rename_i hzero
        rw [ih]
        obtain ⟨n, hn⟩ := Nat.dvd_of_mod_eq_zero hzero.2
        unfold Scaled.value
        dsimp only
        rw [hn, Nat.mul_div_cancel_left n (by decide), zpow_add_one₀ (by norm_num)]
        push_cast
        ring
      · rfl

/-! ## The size of a number -/

/-- The guess of the decimal exponent is too large by one at most, for every exponent of two that a
number can have. -/
theorem decimalLe_guess (ht : -1074 ≤ p) (ht' : p < 1024) :
    decimalLe 1 (p * 30103 / 100000 - 1) 1 p = true := by
  have hall : (List.range 2098).all (fun i =>
      decimalLe 1 (((i : Int) - 1074) * 30103 / 100000 - 1) 1 ((i : Int) - 1074)) = true := by
    decide +kernel
  have hp := List.all_eq_true.mp hall (p + 1074).toNat (List.mem_range.mpr (by omega))
  have hcast : ((p + 1074).toNat : Int) - 1074 = p := by omega
  simpa only [hcast] using hp

theorem decimalExponent_le (hm : 0 < m) (h : Canonical m q) :
    (10 : ℚ) ^ decimalExponent m q ≤ m * 2 ^ q := by
  unfold decimalExponent
  dsimp only
  split
  · -- the guess was too large
    have hlog : m.log2 < 53 := (Nat.log2_lt hm.ne').mpr h.mantissa_lt
    have hguess := decimalLe_iff.mp (decimalLe_guess (p := (m.log2 : Int) + q)
      (by have := h.exponent_ge; omega) (by have := h.exponent_le; omega))
    rw [Nat.cast_one, one_mul, one_mul] at hguess
    refine hguess.trans ?_
    rw [zpow_add₀ two_ne_zero, zpow_natCast]
    have hpow : ((2 ^ m.log2 : Nat) : ℚ) ≤ m := by exact_mod_cast Nat.log2_self_le hm.ne'
    push_cast at hpow
    exact mul_le_mul_of_nonneg_right hpow (by positivity)
  · rename_i hguess
    split
    · rename_i hlarger
      have hlarger := decimalLe_iff.mp hlarger
      rwa [Nat.cast_one, one_mul] at hlarger
    · have hguess := decimalLe_iff.mp (by simpa using hguess)
      rwa [Nat.cast_one, one_mul] at hguess

/-! ## The shortest decimal -/

/-- A grid of seventeen digits has a point in the interval. -/
theorem contains_floorAt (hm : 0 < m) (h : Canonical m q) :
    (interval m q).Contains
      (Scaled.value ⟨floorAt m q (decimalExponent m q - 17), decimalExponent m q - 17⟩) := by
  have hunit : (0 : ℚ) < 2 ^ q := by positivity
  have hgrid : (10 : ℚ) ^ (decimalExponent m q - 17) ≤ 1 / 4 * 2 ^ q := by
    have hsize := decimalExponent_le hm h
    have hm53 : (m : ℚ) ≤ 2 ^ 53 := by exact_mod_cast h.mantissa_lt.le
    rw [zpow_sub₀ (by norm_num), div_le_iff₀ (by positivity)]
    calc (10 : ℚ) ^ decimalExponent m q ≤ m * 2 ^ q := hsize
      _ ≤ 2 ^ 53 * 2 ^ q := mul_le_mul_of_nonneg_right hm53 hunit.le
      _ ≤ 1 / 4 * 2 ^ q * 10 ^ (17 : Int) := by
        have hconst : (2 : ℚ) ^ 53 ≤ 1 / 4 * 10 ^ (17 : Int) := by norm_num
        nlinarith
  have hbelow := floorAt_le m q (decimalExponent m q - 17)
  have habove := lt_floorAt m q (decimalExponent m q - 17)
  refine interval_contains hm ?_ ?_
  · unfold Scaled.value
    dsimp only
    linarith
  · unfold Scaled.value
    dsimp only
    linarith

/-- The shortest decimal of a number lies in the interval of the number. -/
theorem shortest_contains (hm : 0 < m) (h : Canonical m q) :
    (interval m q).Contains (shortest tie m q).value := by
  unfold shortest
  rw [dropZeros_value]
  exact firstHit_contains (contains_floorAt hm h)

end Credence.Decimal
