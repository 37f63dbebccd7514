import Credence.Proofs.Decimal.Digits
import Credence.Proofs.Decimal.Nearest

/-!
# Numbers read back

A finite number without a sign is written with digits and at most one point, and what is written is
read as the number again: the shortest decimal lies in the interval of the number, its layout keeps
its value, and whatever lies in the interval is nearest to the number.
-/

namespace Credence.Decimal

variable {x : Float} {m n : Nat} {q e : Int} {d : Scaled} {c : Char}
  {whole fraction text digits : List Char}

/-! ## Reading digits -/

/-- What begins with a digit has no sign and is no word. -/
theorem readChars?_of_isDigit (hc : isDigit c = true) (rest : List Char) :
    readChars? (c :: rest) = unsigned? (c :: rest) := by
  have hval : 48 ≤ c.val.toNat ∧ c.val.toNat ≤ 57 := by
    simp only [isDigit, Bool.and_eq_true, decide_eq_true_eq, Char.le_def,
      UInt32.le_iff_toNat_le] at hc
    exact hc
  have hlower : c.toLower = c := by
    unfold Char.toLower
    rw [dif_neg]
    rintro ⟨hletter, -⟩
    have hletter : 65 ≤ c.val.toNat := UInt32.le_iff_toNat_le.mp hletter
    omega
  have hne (d : Char) (hd : isDigit d = false) : c ≠ d := by
    rintro rfl
    exact nomatch hc.symm.trans hd
  have hsign : spanSign (c :: rest) = (false, c :: rest) := by
    unfold spanSign
    split
    · rename_i heq
      exact absurd (List.cons.inj heq).1 (hne '-' (by decide))
    · rename_i heq
      exact absurd (List.cons.inj heq).1 (hne '+' (by decide))
    · rfl
  have hword (word : String) (d : Char) (hd : isDigit d = false) (hhead : word.toList.head? = some d) :
      String.ofList ((c :: rest).map Char.toLower) ≠ word := by
    rintro rfl
    rw [String.toList_ofList, List.map_cons, hlower] at hhead
    exact hne d hd (Option.some.inj hhead)
  have hnamed : namedNumber? (c :: rest) = none := by
    unfold namedNumber?
    dsimp only
    rw [if_neg, if_neg]
    · exact hword "nan" 'n' (by decide) rfl
    · exact not_or.mpr ⟨hword "inf" 'i' (by decide) rfl, hword "infinity" 'i' (by decide) rfl⟩
  unfold readChars?
  rw [hsign]
  dsimp only
  rw [hnamed]
  simp

theorem readChars?_whole (hne : digits ≠ []) (hdigits : ∀ c ∈ digits, isDigit c = true) :
    readChars? digits = some (ofDecimal (digitsValue digits) 0) := by
  have hspan := spanDigits_append hdigits undigited_nil
  rw [List.append_nil] at hspan
  cases hcs : digits with
  | nil => exact absurd hcs hne
  | cons c cs =>
      rw [readChars?_of_isDigit (hdigits c (by simp [hcs])), ← hcs]
      unfold unsigned?
      rw [hspan]
      simp [hne, exponent?]

theorem readChars?_point (hne : whole ≠ []) (hwhole : ∀ c ∈ whole, isDigit c = true)
    (hfraction : ∀ c ∈ fraction, isDigit c = true) :
    readChars? (whole ++ '.' :: fraction) =
      some (ofDecimal (digitsValue (whole ++ fraction)) (-fraction.length)) := by
  have hpoint : Undigited ('.' :: fraction) := undigited_cons (by decide)
  have hspan := spanDigits_append hwhole hpoint
  have hspan' := spanDigits_append hfraction undigited_nil
  rw [List.append_nil] at hspan'
  cases hcs : whole with
  | nil => exact absurd hcs hne
  | cons c cs =>
      rw [List.cons_append, readChars?_of_isDigit (hwhole c (by simp [hcs])), ← List.cons_append, ← hcs]
      unfold unsigned?
      rw [hspan]
      simp [hspan', hne, exponent?]

/-- What a literal says is a number without a sign. -/
theorem IsLiteral.readChars? (h : IsLiteral text) :
    ∃ x, readChars? text = some x ∧ IsRead x := by
  obtain ⟨whole, hne, hwhole, rfl | ⟨fraction, -, hfraction, rfl⟩⟩ := h
  · exact ⟨_, readChars?_whole hne hwhole, isRead_ofDecimal _ _⟩
  · exact ⟨_, readChars?_point hne hwhole hfraction, isRead_ofDecimal _ _⟩

/-! ## Layout -/

theorem isDigit_of_mem_zeros (hc : c ∈ zeros n) : isDigit c = true := by
  obtain rfl := List.eq_of_mem_replicate hc
  decide

theorem digitsValue_append_zeros (digits : List Char) (n : Nat) :
    digitsValue (digits ++ zeros n) = digitsValue digits * 10 ^ n := by
  induction n with
  | zero => simp [zeros]
  | succ n ih =>
      have hzeros : digits ++ zeros (n + 1) = digits ++ zeros n ++ ['0'] := by
        simp [zeros, List.replicate_succ']
      rw [hzeros]
      unfold digitsValue at ih ⊢
      rw [List.foldl_append, ih]
      simp only [List.foldl_cons, List.foldl_nil]
      rw [Nat.sub_self, Nat.pow_succ]
      ring

/-- A text is a literal, and what it says is a decimal in other digits. -/
def Renders (text : List Char) (d : Scaled) : Prop :=
  IsLiteral text ∧ ∃ d' : Scaled, d'.value = d.value ∧
    readChars? text = some (ofDecimal d'.digits d'.exponent)

/-- The point stands behind all digits, and the gap to it is filled with zeros. -/
theorem renders_whole (h : 0 ≤ d.exponent) :
    Renders (digitsOf d.digits ++ zeros d.exponent.toNat) d := by
  have hne : digitsOf d.digits ++ zeros d.exponent.toNat ≠ [] := by simp [digitsOf_ne_nil]
  have hdigits : ∀ c ∈ digitsOf d.digits ++ zeros d.exponent.toNat, isDigit c = true := by
    intro c hc
    obtain hc | hc := List.mem_append.mp hc
    · exact isDigit_of_mem_digitsOf hc
    · exact isDigit_of_mem_zeros hc
  refine ⟨⟨_, hne, hdigits, .inl rfl⟩,
    ⟨digitsValue (digitsOf d.digits ++ zeros d.exponent.toNat), 0⟩, ?_, readChars?_whole hne hdigits⟩
  obtain ⟨k, hk⟩ : ∃ k : Nat, d.exponent = k := ⟨d.exponent.toNat, by omega⟩
  rw [digitsValue_append_zeros, digitsValue_digitsOf]
  simp [Scaled.value, hk]

/-- The point stands between two digits. -/
theorem renders_point (hn : 0 < n) (hexponent : d.exponent < 0)
    (hplace : d.exponent + (digitsOf d.digits).length = n) :
    Renders ((digitsOf d.digits).take n ++ '.' :: (digitsOf d.digits).drop n) d := by
  have hwhole : ∀ c ∈ (digitsOf d.digits).take n, isDigit c = true :=
    fun c hc => isDigit_of_mem_digitsOf (List.mem_of_mem_take hc)
  have hfraction : ∀ c ∈ (digitsOf d.digits).drop n, isDigit c = true :=
    fun c hc => isDigit_of_mem_digitsOf (List.mem_of_mem_drop hc)
  have hne : (digitsOf d.digits).take n ≠ [] := by
    rw [ne_eq, List.take_eq_nil_iff]
    exact not_or.mpr ⟨hn.ne', digitsOf_ne_nil d.digits⟩
  have hlength : -(((digitsOf d.digits).drop n).length : Int) = d.exponent := by
    rw [List.length_drop]
    omega
  have hne' : (digitsOf d.digits).drop n ≠ [] := by
    intro hnil
    rw [hnil] at hlength
    simp at hlength
    omega
  refine ⟨⟨_, hne, hwhole, .inr ⟨_, hne', hfraction, rfl⟩⟩, d, rfl, ?_⟩
  rw [readChars?_point hne hwhole hfraction, List.take_append_drop, digitsValue_digitsOf, hlength]

/-- The point stands in front of all digits, and the gap to it is filled with zeros. -/
theorem renders_fraction (hplace : d.exponent + (digitsOf d.digits).length = -n) :
    Renders ('0' :: '.' :: zeros n ++ digitsOf d.digits) d := by
  have hzero : ∀ c ∈ ['0'], isDigit c = true := fun c hc => isDigit_of_mem_zeros (n := 1) hc
  have hfraction : ∀ c ∈ zeros n ++ digitsOf d.digits, isDigit c = true := by
    intro c hc
    obtain hc | hc := List.mem_append.mp hc
    · exact isDigit_of_mem_zeros hc
    · exact isDigit_of_mem_digitsOf hc
  have hlength : -((zeros n ++ digitsOf d.digits).length : Int) = d.exponent := by
    rw [List.length_append]
    unfold zeros
    rw [List.length_replicate]
    push_cast
    omega
  have hvalue : digitsValue (['0'] ++ (zeros n ++ digitsOf d.digits)) = d.digits :=
    (digitsValue_zeros_append 1 _).trans
      ((digitsValue_zeros_append _ _).trans (digitsValue_digitsOf d.digits))
  have hread := readChars?_point (by simp) hzero hfraction
  rw [hlength, hvalue] at hread
  exact ⟨⟨['0'], by simp, hzero, .inr ⟨_, by simp [digitsOf_ne_nil], hfraction, rfl⟩⟩, d, rfl, hread⟩

/-- What is laid out in places is a literal that keeps the value. -/
theorem renders_inPlaces (d : Scaled) : Renders (inPlaces d) d := by
  unfold inPlaces
  dsimp only
  split
  · exact renders_whole ‹_›
  · split
    · exact renders_point (by omega) (by omega) (by omega)
    · exact renders_fraction (by omega)

/-! ## Reading back -/

theorem digitCount_bounds (hn : 0 < n) : 10 ^ (digitCount n - 1) ≤ n ∧ n < 10 ^ digitCount n := by
  have hpos : 0 < digitCount n := Nat.length_toDigits_pos
  have hle {k : Nat} (hk : 0 < k) : digitCount n ≤ k ↔ n < 10 ^ k :=
    Nat.length_toDigits_le_iff (by decide) hk
  refine ⟨?_, (hle hpos).mp le_rfl⟩
  obtain hone | hmore := Nat.eq_zero_or_pos (digitCount n - 1)
  · rw [hone]
    exact hn
  · by_contra hlt
    have hshort := (hle hmore).mpr (Nat.lt_of_not_le hlt)
    omega

/-- A decimal lies between the powers of ten that its number of digits tells. -/
theorem value_bounds (hpos : 0 < d.digits) :
    (10 : ℚ) ^ (d.exponent + digitCount d.digits - 1) ≤ d.value ∧
      d.value < 10 ^ (d.exponent + digitCount d.digits) := by
  obtain ⟨hfew, hmany⟩ := digitCount_bounds hpos
  have hcount : 0 < digitCount d.digits := Nat.length_toDigits_pos
  constructor
  · have hcast : ((10 : ℚ) ^ (digitCount d.digits - 1 : Nat)) ≤ d.digits := by exact_mod_cast hfew
    rw [← zpow_natCast, Nat.cast_pred hcount] at hcast
    have hsum : d.exponent + digitCount d.digits - 1 =
        (digitCount d.digits - 1) + d.exponent := by ring
    rw [hsum, zpow_add₀ (by norm_num)]
    exact mul_le_mul_of_nonneg_right hcast (by positivity)
  · have hcast : (d.digits : ℚ) < 10 ^ (digitCount d.digits) := by exact_mod_cast hmany
    rw [← zpow_natCast] at hcast
    rw [add_comm, zpow_add₀ (by norm_num)]
    exact mul_lt_mul_of_pos_right hcast (by positivity)

/-- What lies in the interval of a number is no smaller than half of the least one, and no larger
than the first power of two that is not finite. -/
theorem bounds_of_contains {r : ℚ} (hm : 0 < m) (hcanonical : Canonical m q)
    (h : (interval m q).Contains r) :
    (2 : ℚ) ^ (-1075 : Int) ≤ r ∧ r ≤ 2 ^ (1024 : Int) := by
  have hunit : (0 : ℚ) < 2 ^ q := by positivity
  obtain ⟨hlow, hhigh, -, -⟩ := h.in_units hm
  rw [le_div_iff₀ hunit] at hlow
  rw [div_le_iff₀ hunit] at hhigh
  have hm1 : (1 : ℚ) ≤ m := by exact_mod_cast hm
  have hm53 : (m : ℚ) + 1 ≤ 2 ^ 53 := by exact_mod_cast hcanonical.mantissa_lt
  constructor
  · calc (2 : ℚ) ^ (-1075 : Int) ≤ 2 ^ (q - 1) :=
          zpow_le_zpow_right₀ (by norm_num) (by have := hcanonical.exponent_ge; omega)
      _ = 1 / 2 * 2 ^ q := by rw [zpow_sub_one₀ two_ne_zero]; ring
      _ ≤ (m - 1 / 2) * 2 ^ q := mul_le_mul_of_nonneg_right (by linarith) hunit.le
      _ ≤ r := hlow
  · calc r ≤ (m + 1 / 2) * 2 ^ q := hhigh
      _ ≤ 2 ^ (53 : Int) * 2 ^ q := by
          refine mul_le_mul_of_nonneg_right ?_ hunit.le
          norm_num at hm53 ⊢
          linarith
      _ = 2 ^ (53 + q) := (zpow_add₀ two_ne_zero _ _).symm
      _ ≤ 2 ^ (1024 : Int) :=
          zpow_le_zpow_right₀ (by norm_num) (by have := hcanonical.exponent_le; omega)

/-- A decimal in the interval of a number is neither too large nor too small to be read. -/
theorem size_of_contains (hm : 0 < m) (hcanonical : Canonical m q)
    (h : (interval m q).Contains d.value) :
    0 < d.digits ∧ d.exponent + digitCount d.digits ≤ 310 ∧
      -330 ≤ d.exponent + digitCount d.digits := by
  obtain ⟨hlow, hhigh⟩ := bounds_of_contains hm hcanonical h
  have hpos : 0 < d.digits := by
    have hvalue : (0 : ℚ) < d.value := lt_of_lt_of_le (by positivity) hlow
    by_contra hzero
    have hdigits : d.digits = 0 := by omega
    simp [Scaled.value, hdigits] at hvalue
  obtain ⟨hfew, hmany⟩ := value_bounds hpos
  refine ⟨hpos, ?_, ?_⟩
  · have hlargest : (2 : ℚ) ^ (1024 : Int) ≤ 10 ^ (309 : Int) := by
      have hpowers := leDecimal_iff.mp (by decide +kernel : leDecimal 1 1024 1 309 = true)
      rwa [Nat.cast_one, one_mul, one_mul] at hpowers
    have hpow := (zpow_le_zpow_iff_right₀ (by norm_num)).mp (hfew.trans (hhigh.trans hlargest))
    omega
  · have hleast : (10 : ℚ) ^ (-331 : Int) ≤ 2 ^ (-1075 : Int) := by
      have hpowers := decimalLe_iff.mp (by decide +kernel : decimalLe 1 (-331) 1 (-1075) = true)
      rwa [Nat.cast_one, one_mul, one_mul] at hpowers
    have hpow := (zpow_lt_zpow_iff_right₀ (by norm_num)).mp ((hleast.trans hlow).trans_lt hmany)
    omega

/-- A decimal in the interval of a number is read as the number. -/
theorem ofDecimal_of_contains (hx : anatomy x = .finite ⟨false, m, q⟩) (hm : 0 < m)
    (h : (interval m q).Contains d.value) : ofDecimal d.digits d.exponent = x := by
  obtain ⟨hpos, hlarge, hsmall⟩ := size_of_contains hm (anatomy_eq_finite hx).1 h
  unfold ofDecimal
  dsimp only
  rw [if_neg hpos.ne', if_neg (by omega), if_neg (by omega)]
  split
  · rename_i hexponent
    refine nearest_of_contains hx hm hpos (tenPow_pos _) ?_
    have hvalue : (d.digits : ℚ) / tenPow d.exponent.natAbs = d.value := by
      have hnat : d.exponent = -(d.exponent.natAbs : Int) := by omega
      unfold Scaled.value
      rw [hnat, zpow_neg, zpow_natCast, cast_tenPow, Int.natAbs_neg, Int.natAbs_natCast]
      ring
    rwa [hvalue]
  · rename_i hexponent
    refine nearest_of_contains hx hm (Nat.mul_pos hpos (tenPow_pos _)) (by decide) ?_
    have hvalue : ((d.digits * tenPow d.exponent.natAbs : Nat) : ℚ) / (1 : Nat) = d.value := by
      have hnat : d.exponent = (d.exponent.natAbs : Int) := by omega
      unfold Scaled.value
      rw [hnat, zpow_natCast, Int.natAbs_natCast, Nat.cast_mul, cast_tenPow]
      simp
    rwa [hvalue]

/-- A finite number without a sign is written with digits and at most one point, and reads back. -/
theorem plain_spec (h : IsUnsigned x) :
    IsLiteral (plain x).toList ∧ readChars? (plain x).toList = some x := by
  obtain ⟨m, q, hx⟩ := h
  unfold plain writeWith
  rw [hx, String.toList_ofList]
  dsimp only [signed]
  rw [if_neg (by decide)]
  obtain rfl | hm := Nat.eq_zero_or_pos m
  · have hdigits : ∀ c ∈ ['0'], isDigit c = true := fun c hc => isDigit_of_mem_zeros (n := 1) hc
    refine ⟨⟨['0'], by simp, hdigits, .inl rfl⟩, ?_⟩
    have hbits : encode 0 q = 0 := if_pos (twoPow_pos 52)
    have hzero : ofDecimal (digitsValue ['0']) 0 = Float.ofBits (UInt64.ofNat 0) := by decide +kernel
    rw [if_pos rfl, readChars?_whole (by simp) hdigits, hzero, ← hbits, ofBits_encode hx]
  · rw [if_neg hm.ne']
    obtain ⟨hliteral, d, hvalue, hread⟩ := renders_inPlaces (shortest .upper m q)
    refine ⟨hliteral, ?_⟩
    rw [hread, ofDecimal_of_contains hx hm]
    rw [hvalue]
    exact shortest_contains hm (anatomy_eq_finite hx).1

/-- A number that is too large to be finite has a name. -/
theorem plain_of_isOverflow (h : IsOverflow x) : plain x = "inf" := by
  unfold plain writeWith
  rw [h]
  rfl

end Credence.Decimal
