import Credence.Proofs.Decimal.Shortest

/-!
# What lies in the interval of a number is read as the number

`nearest` looks for the power of two at which a quotient has a mantissa of the right size, and
rounds the quotient there.  For a quotient in the interval of `m * 2 ^ q` this power is `q`, and the
quotient rounds to `m`.  There is one exception: a quotient just below a power of two is rounded at
the power before, but there it is rounded up to where the mantissa begins anew, which gives the same
bits.
-/

namespace Credence.Decimal

variable {num den n d m : Nat} {q : Int} {x : Float}

/-! ## Rounding -/

/-- A quotient rounds to the integer that is at most one half away, and less if it is odd. -/
theorem roundHalfEven_eq (hd : 0 < d) (hlow : (m : ℚ) - 1 / 2 ≤ n / d)
    (hhigh : (n : ℚ) / d ≤ m + 1 / 2)
    (hodd : m % 2 = 1 → (m : ℚ) - 1 / 2 < n / d ∧ (n : ℚ) / d < m + 1 / 2) :
    roundHalfEven n d = m := by
  have hdpos : (0 : ℚ) < d := by exact_mod_cast hd
  rw [le_div_iff₀ hdpos] at hlow
  rw [div_le_iff₀ hdpos] at hhigh
  rw [lt_div_iff₀ hdpos, div_lt_iff₀ hdpos] at hodd
  have hlow' : 2 * (m * d) ≤ 2 * n + d := by
    have hcast : (2 * (m * d) : ℚ) ≤ 2 * n + d := by linarith
    exact_mod_cast hcast
  have hhigh' : 2 * n ≤ 2 * (m * d) + d := by
    have hcast : (2 * n : ℚ) ≤ 2 * (m * d) + d := by linarith
    exact_mod_cast hcast
  have hodd' : m % 2 = 1 → 2 * (m * d) < 2 * n + d ∧ 2 * n < 2 * (m * d) + d := by
    intro hm
    obtain ⟨hlow, hhigh⟩ := hodd hm
    have hlow : (2 * (m * d) : ℚ) < 2 * n + d := by linarith
    have hhigh : (2 * n : ℚ) < 2 * (m * d) + d := by linarith
    exact ⟨by exact_mod_cast hlow, by exact_mod_cast hhigh⟩
  have hdiv : n / d * d + n % d = n := Nat.div_add_mod' n d
  have hrest : n % d < d := Nat.mod_lt n hd
  have hside : m = n / d ∨ m = n / d + 1 := by
    obtain hlt | heq | hgt := Nat.lt_trichotomy m (n / d)
    · have hmul := Nat.mul_le_mul_right d hlt
      rw [Nat.succ_mul] at hmul
      omega
    · exact .inl heq
    · refine .inr (le_antisymm ?_ hgt)
      by_contra hne
      have hmul := Nat.mul_le_mul_right d (Nat.lt_of_not_le hne)
      rw [Nat.succ_mul, Nat.succ_mul] at hmul
      omega
  unfold roundHalfEven
  dsimp only
  obtain rfl | rfl := hside
  · split_ifs <;> omega
  · rw [Nat.add_mul (n / d) 1 d, Nat.one_mul] at hlow' hhigh' hodd'
    split_ifs <;> omega

/-! ## Scales -/

theorem scaleBy_pos (hden : 0 < den) : 0 < (scaleBy num den q).2 := by
  unfold scaleBy
  split
  · exact hden
  · exact Nat.mul_pos hden (twoPow_pos _)

theorem scaleBy_div (num den : Nat) (q : Int) :
    ((scaleBy num den q).1 : ℚ) / (scaleBy num den q).2 = num / den / 2 ^ q := by
  unfold scaleBy
  split
  · rename_i hq
    obtain ⟨k, rfl⟩ : ∃ k : Nat, q = -k := ⟨q.natAbs, by omega⟩
    have hk : (-(k : Int)).natAbs = k := by omega
    dsimp only
    rw [hk, Nat.cast_mul, cast_twoPow, zpow_neg, zpow_natCast]
    field_simp
  · rename_i hq
    obtain ⟨k, rfl⟩ : ∃ k : Nat, q = k := ⟨q.natAbs, by omega⟩
    have hk : ((k : Int)).natAbs = k := by omega
    dsimp only
    rw [hk, Nat.cast_mul, cast_twoPow, zpow_natCast]
    field_simp

theorem log2_bounds (hn : 0 < n) :
    (2 : ℚ) ^ (n.log2 : Int) ≤ n ∧ (n : ℚ) < 2 ^ (n.log2 + 1 : Int) := by
  have hlow := Nat.log2_self_le hn.ne'
  have hhigh := Nat.lt_log2_self (n := n)
  rw [← Nat.cast_succ, zpow_natCast, zpow_natCast]
  exact ⟨by exact_mod_cast hlow, by exact_mod_cast hhigh⟩

/-- The lengths of a numerator and a denominator in base two tell the quotient up to one digit. -/
theorem quotient_bounds (hnum : 0 < num) (hden : 0 < den) :
    (2 : ℚ) ^ ((num.log2 : Int) - den.log2 - 1) ≤ num / den ∧
      (num : ℚ) / den < 2 ^ ((num.log2 : Int) - den.log2 + 1) := by
  have hdenpos : (0 : ℚ) < den := by exact_mod_cast hden
  obtain ⟨hnumlow, hnumhigh⟩ := log2_bounds hnum
  obtain ⟨hdenlow, hdenhigh⟩ := log2_bounds hden
  constructor
  · rw [le_div_iff₀ hdenpos]
    calc (2 : ℚ) ^ ((num.log2 : Int) - den.log2 - 1) * den
        ≤ 2 ^ ((num.log2 : Int) - den.log2 - 1) * 2 ^ (den.log2 + 1 : Int) :=
          mul_le_mul_of_nonneg_left hdenhigh.le (by positivity)
      _ = 2 ^ (num.log2 : Int) := by
          rw [← zpow_add₀ two_ne_zero]
          congr 1
          ring
      _ ≤ num := hnumlow
  · rw [div_lt_iff₀ hdenpos]
    calc (num : ℚ) < 2 ^ (num.log2 + 1 : Int) := hnumhigh
      _ = 2 ^ ((num.log2 : Int) - den.log2 + 1) * 2 ^ (den.log2 : Int) := by
          rw [← zpow_add₀ two_ne_zero]
          congr 1
          ring
      _ ≤ 2 ^ ((num.log2 : Int) - den.log2 + 1) * den :=
          mul_le_mul_of_nonneg_left hdenlow (by positivity)

/-- The test of a scale: whether it leaves fewer than fifty-three digits before the point. -/
theorem scaleBy_lt_iff (hden : 0 < den) (q : Int) :
    (scaleBy num den q).1 / (scaleBy num den q).2 < twoPow 52 ↔
      (num : ℚ) / den < 2 ^ (52 + q) := by
  have hscale := scaleBy_div num den q
  have hpos : 0 < (scaleBy num den q).2 := scaleBy_pos hden
  have hpos' : (0 : ℚ) < (scaleBy num den q).2 := by exact_mod_cast hpos
  rw [Nat.div_lt_iff_lt_mul hpos, zpow_add₀ two_ne_zero, ← div_lt_iff₀ (by positivity), ← hscale,
    div_lt_iff₀ hpos', ← @Nat.cast_lt ℚ, Nat.cast_mul, cast_twoPow]
  norm_num

/-- The scale of a quotient leaves fifty-three digits in base two before the point, and fewer only
at the least exponent. -/
theorem mantissaExponent_spec (hnum : 0 < num) (hden : 0 < den) :
    -1074 ≤ mantissaExponent num den ∧
      (num : ℚ) / den < 2 ^ (53 + mantissaExponent num den) ∧
      (mantissaExponent num den = -1074 ∨
        (2 : ℚ) ^ (52 + mantissaExponent num den) ≤ num / den) := by
  obtain ⟨hlow, hhigh⟩ := quotient_bounds hnum hden
  -- the power at which the quotient has fifty-three digits, were there no least one
  obtain ⟨q, hq, hqhigh, hqlow⟩ : ∃ q : Int,
      mantissaExponent num den = (if q < -1074 then -1074 else q) ∧
      (num : ℚ) / den < 2 ^ (53 + q) ∧ (2 : ℚ) ^ (52 + q) ≤ num / den := by
    unfold mantissaExponent
    dsimp only
    by_cases h : (scaleBy num den ((num.log2 : Int) - den.log2 - 52)).1 /
        (scaleBy num den ((num.log2 : Int) - den.log2 - 52)).2 < twoPow 52
    · rw [if_pos h]
      refine ⟨_, rfl, ((scaleBy_lt_iff hden _).mp h).trans_eq ?_, le_trans (le_of_eq ?_) hlow⟩
      · congr 1
        ring
      · congr 1
        ring
    · rw [if_neg h]
      refine ⟨_, rfl, lt_of_lt_of_eq hhigh ?_, not_lt.mp (mt (scaleBy_lt_iff hden _).mpr h)⟩
      congr 1
      ring
  rw [hq]
  split
  · rename_i hleast
    refine ⟨le_rfl, hqhigh.trans_le ?_, .inl rfl⟩
    exact zpow_le_zpow_right₀ (by norm_num) (by omega)
  · exact ⟨by omega, hqhigh, .inr hqlow⟩

/-! ## The nearest number -/

/-- What an interval says about a quotient in units of the number. -/
theorem Interval.Contains.in_units {r : ℚ} (hm : 0 < m) (h : (interval m q).Contains r) :
    (m : ℚ) - 1 / 2 ≤ r / 2 ^ q ∧ r / 2 ^ q ≤ m + 1 / 2 ∧
      (m % 2 = 1 → (m : ℚ) - 1 / 2 < r / 2 ^ q ∧ r / 2 ^ q < m + 1 / 2) ∧
      (m = 2 ^ 52 → -1074 < q → (m : ℚ) - 1 / 4 ≤ r / 2 ^ q) := by
  have hunit : (0 : ℚ) < 2 ^ q := by positivity
  have hlower : (m : ℚ) - 1 / 2 ≤ (interval m q).lower / 4 := by
    have hnat : 4 * m ≤ (interval m q).lower + 2 := by
      unfold interval
      dsimp only
      split <;> omega
    have hcast : (4 * m : ℚ) ≤ (interval m q).lower + 2 := by exact_mod_cast hnat
    linarith
  have hupper : ((interval m q).upper : ℚ) / 4 = m + 1 / 2 := by
    unfold interval
    push_cast
    ring
  have hle : ((interval m q).lower : ℚ) / 4 ≤ r / 2 ^ q := by
    have hle : (interval m q).lower * 2 ^ (q - 2) ≤ r := h.lower_le
    rw [quarter_unit] at hle
    rw [le_div_iff₀ hunit]
    linarith
  have hge : r / 2 ^ q ≤ (interval m q).upper / 4 := by
    have hge : r ≤ (interval m q).upper * 2 ^ (q - 2) := h.le_upper
    rw [quarter_unit] at hge
    rw [div_le_iff₀ hunit]
    linarith
  refine ⟨hlower.trans hle, hge.trans_eq hupper, fun hodd => ?_, fun hfull hq => ?_⟩
  · have hopen : (interval m q).closed = false := by simp [interval, hodd]
    have hlt : (interval m q).lower * 2 ^ (q - 2) < r ∧ r < (interval m q).upper * 2 ^ (q - 2) := by
      unfold Interval.Contains at h
      rwa [hopen] at h
    rw [quarter_unit] at hlt
    refine ⟨hlower.trans_lt ?_, lt_of_lt_of_eq ?_ hupper⟩
    · rw [lt_div_iff₀ hunit]
      linarith [hlt.1]
    · rw [div_lt_iff₀ hunit]
      linarith [hlt.2]
  · have hnear : (interval m q).lower + 1 = 4 * m := by
      unfold interval
      dsimp only
      rw [if_pos ⟨hfull, hq⟩]
      omega
    have hcast : ((interval m q).lower : ℚ) + 1 = 4 * m := by exact_mod_cast hnear
    linarith

/-- A quotient in the interval of a number is scaled as the number is, unless it lies below the
least full mantissa. -/
theorem mantissaExponent_eq (hm : 0 < m) (hcanonical : Canonical m q) (hnum : 0 < num)
    (hden : 0 < den) (h : (interval m q).Contains ((num : ℚ) / den)) :
    mantissaExponent num den = q ∨
      mantissaExponent num den = q - 1 ∧ m = 2 ^ 52 ∧ -1074 < q ∧
        (2 : ℚ) ^ 53 - 1 / 2 ≤ num / den / 2 ^ (q - 1) := by
  have hunit : (0 : ℚ) < 2 ^ q := by positivity
  obtain ⟨hlow, hhigh, -, hboundary⟩ := h.in_units hm
  obtain ⟨hleast, hsize, hfull⟩ := mantissaExponent_spec hnum hden
  obtain hlt | heq | hgt := lt_trichotomy (mantissaExponent num den) q
  · have hq : -1074 < q := by omega
    have hm52 : 2 ^ 52 ≤ m := by
      have hcases := hcanonical.full
      omega
    have hbelow (k : Nat) (hk : 53 + mantissaExponent num den ≤ k + q) :
        (num : ℚ) / den / 2 ^ q < 2 ^ k := by
      rw [div_lt_iff₀ hunit, ← zpow_natCast, ← zpow_add₀ two_ne_zero]
      exact hsize.trans_le (zpow_le_zpow_right₀ (by norm_num) hk)
    have hm : m = 2 ^ 52 := by
      refine le_antisymm ?_ hm52
      have hlt52 := hbelow 52 (by omega)
      have hcast : (m : ℚ) < (2 ^ 52 + 1 : Nat) := by
        push_cast
        linarith
      exact Nat.le_of_lt_succ (by exact_mod_cast hcast)
    have hnear := hboundary hm hq
    rw [hm] at hnear
    push_cast at hnear
    refine .inr ⟨?_, hm, hq, ?_⟩
    · by_contra hne
      have hlt51 := hbelow 51 (by omega)
      linarith
    · have hhalf : (num : ℚ) / den / 2 ^ (q - 1) = 2 * (num / den / 2 ^ q) := by
        rw [zpow_sub_one₀ two_ne_zero]
        field_simp
      rw [hhalf]
      linarith
  · exact .inl heq
  · exfalso
    have habove : (2 : ℚ) ^ (53 : Int) ≤ num / den / 2 ^ q := by
      rw [le_div_iff₀ hunit, ← zpow_add₀ two_ne_zero]
      refine le_trans (zpow_le_zpow_right₀ (by norm_num) ?_) (hfull.resolve_left ?_)
      · omega
      · have hge := hcanonical.exponent_ge
        omega
    have hcast : (m : ℚ) + 1 ≤ (2 ^ 53 : Nat) := by exact_mod_cast hcanonical.mantissa_lt
    norm_num at habove hcast
    linarith

/-- What lies in the interval of a number is nearest to that number. -/
theorem nearest_of_contains (hx : anatomy x = .finite ⟨false, m, q⟩) (hm : 0 < m) (hnum : 0 < num)
    (hden : 0 < den) (h : (interval m q).Contains ((num : ℚ) / den)) : nearest num den = x := by
  obtain ⟨hcanonical, hbits, hsmall⟩ := anatomy_eq_finite hx
  have hencode : encode (roundHalfEven (scaleBy num den (mantissaExponent num den)).1
      (scaleBy num den (mantissaExponent num den)).2) (mantissaExponent num den) = encode m q := by
    obtain heq | ⟨heq, rfl, hq, hnear⟩ := mantissaExponent_eq hm hcanonical hnum hden h
    · obtain ⟨hlow, hhigh, hodd, -⟩ := h.in_units hm
      rw [heq]
      rw [← scaleBy_div] at hlow hhigh hodd
      rw [roundHalfEven_eq (scaleBy_pos hden) hlow hhigh hodd]
    · -- the quotient is rounded up to the next power of two
      have hsize := (mantissaExponent_spec hnum hden).2.1
      rw [heq, zpow_add₀ two_ne_zero, ← div_lt_iff₀ (by positivity)] at hsize
      rw [heq]
      rw [← scaleBy_div] at hnear hsize
      have hround : roundHalfEven (scaleBy num den (q - 1)).1 (scaleBy num den (q - 1)).2 = 2 ^ 53 := by
        refine roundHalfEven_eq (scaleBy_pos hden) ?_ ?_ fun hodd => absurd hodd (by norm_num)
        · push_cast
          exact hnear
        · push_cast
          norm_num at hsize ⊢
          linarith
      rw [hround]
      have htwo : twoPow 52 = 2 ^ 52 := rfl
      unfold encode
      rw [htwo, if_neg (by decide), if_neg (by decide)]
      omega
  unfold nearest
  rw [if_neg hnum.ne']
  show (if encode (roundHalfEven (scaleBy num den (mantissaExponent num den)).1
          (scaleBy num den (mantissaExponent num den)).2) (mantissaExponent num den) < 2047 * twoPow 52
      then Float.ofBits (UInt64.ofNat (encode
        (roundHalfEven (scaleBy num den (mantissaExponent num den)).1
          (scaleBy num den (mantissaExponent num den)).2) (mantissaExponent num den)))
      else Float.ofBits (UInt64.ofNat (2047 * twoPow 52))) = x
  rw [hencode, if_pos hsmall]
  exact ofBits_encode hx

/-! ## Numbers without a sign -/

theorem isUnsigned_zero : IsUnsigned 0 := ⟨0, -1074, by decide +kernel⟩

theorem isRead_nearest (num den : Nat) : IsRead (nearest num den) := by
  have hbits (bits : Nat) {x : Float} (hx : x = if bits < 2047 * twoPow 52 then
      Float.ofBits (UInt64.ofNat bits) else Float.ofBits (UInt64.ofNat (2047 * twoPow 52))) : IsRead x := by
    rw [hx]
    split
    · rename_i hlt
      exact isRead_ofBits hlt.le
    · exact isRead_ofBits le_rfl
  unfold nearest
  split
  · exact .inl isUnsigned_zero
  · exact hbits _ rfl

/-- Digits make a number without a sign, however many they are. -/
theorem isRead_ofDecimal (digits : Nat) (e : Int) : IsRead (ofDecimal digits e) := by
  unfold ofDecimal
  dsimp only
  split_ifs
  · exact .inl isUnsigned_zero
  · exact isRead_nearest _ _
  · exact .inl isUnsigned_zero
  · exact isRead_nearest _ _
  · exact isRead_nearest _ _

end Credence.Decimal
