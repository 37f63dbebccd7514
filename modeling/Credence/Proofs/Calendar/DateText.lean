import Credence.Calendar.DateText
import Credence.Proofs.Decimal.Digits
import Credence.Proofs.Text.Blank

/-!
# Written dates are read back

Every date that is written year first is read back by the reader of saved documents.  A year of more
than four digits needs its sign for that, since the reader takes four digits at most without one.
-/

namespace Credence

namespace Calendar

open Decimal

variable {width n : Nat} {digits after : List Char}

theorem integer?_append (hdigits : ∀ c ∈ digits, isDigit c = true) (hne : digits ≠ [])
    (hwidth : digits.length ≤ width) (hafter : Undigited after) :
    integer? width (digits ++ after) = some (digitsValue digits, after) := by
  have htake : ((digits ++ after).take width).takeWhile isDigit = digits := by
    have hrest : Undigited (after.take (width - digits.length)) := by
      intro c rest hc
      cases after with
      | nil => simp at hc
      | cons d after =>
          cases hk : width - digits.length with
          | zero =>
              rw [hk] at hc
              nomatch hc
          | succ k =>
              rw [hk, List.take_succ_cons, List.cons.injEq] at hc
              rw [← hc.1]
              exact hafter d after rfl
    rw [List.take_append, List.take_of_length_le hwidth]
    exact congrArg Prod.fst (spanDigits_append hdigits hrest)
  unfold integer?
  rw [htake]
  dsimp only
  rw [if_neg hne, List.drop_left]

theorem padded_spec (width n : Nat) :
    (∀ c ∈ padded width n, isDigit c = true) ∧ padded width n ≠ [] ∧
      digitsValue (padded width n) = n := by
  refine ⟨fun c hc => ?_, ?_, digitsValue_zeros_append _ _ |>.trans (digitsValue_digitsOf n)⟩
  · rcases List.mem_append.mp hc with hc | hc
    · rw [List.eq_of_mem_replicate hc]
      decide
    · exact isDigit_of_mem_digitsOf hc
  · intro h
    exact digitsOf_ne_nil n (List.append_eq_nil_iff.mp h).2

theorem length_padded_le (hwidth : 0 < width) (hn : n < Decimal.tenPow width) :
    (padded width n).length ≤ width := by
  have hle : (digitsOf n).length ≤ width :=
    (Nat.length_toDigits_le_iff (by omega) hwidth).mpr hn
  show (List.replicate (width - (digitsOf n).length) '0' ++ digitsOf n).length ≤ width
  rw [List.length_append, List.length_replicate]
  omega

theorem integer?_padded (hwidth : 0 < width) (hn : n < Decimal.tenPow width)
    (hafter : Undigited after) :
    integer? width (padded width n ++ after) = some (n, after) := by
  obtain ⟨hdigits, hne, hvalue⟩ := padded_spec width n
  rw [integer?_append hdigits hne (length_padded_le hwidth hn) hafter, hvalue]

theorem longInteger?_padded (hafter : Undigited after) :
    longInteger? (padded width n ++ after) = some (n, after) := by
  obtain ⟨hdigits, hne, hvalue⟩ := padded_spec width n
  have hlength : (padded width n).length ≤ (padded width n ++ after).length := by
    rw [List.length_append]
    omega
  unfold longInteger?
  rw [integer?_append hdigits hne hlength hafter, hvalue]

/-- No blank stands in front of digits. -/
theorem trimLeft_padded (width n : Nat) (after : List Char) :
    Text.trimLeft (padded width n ++ after) = padded width n ++ after := by
  obtain ⟨hdigits, hne, -⟩ := padded_spec width n
  cases hpadded : padded width n with
  | nil => exact absurd hpadded hne
  | cons c cs =>
      have hblank := Text.isBlank_of_isDigit (hdigits c (hpadded ▸ List.mem_cons_self))
      exact List.dropWhile_cons_of_neg (by simp [hblank])

theorem smallField?_padded (hn : n < 100) (hafter : Undigited after) :
    smallField? (padded 2 n ++ after) = some (n, after) := by
  unfold smallField?
  rw [trimLeft_padded, integer?_padded (by omega) hn hafter]

/-- Without a sign a year is read as four digits at most. -/
theorem year?_padded (hwidth : 0 < width) (hshort : width ≤ 4) (hn : n < Decimal.tenPow width)
    (hafter : Undigited after) : year? (padded width n ++ after) = some ((n : Int), after) := by
  obtain ⟨hdigits, hne, hvalue⟩ := padded_spec width n
  -- a digit is neither of the signs
  have hsign : ∀ c rest, padded width n ++ after = c :: rest → isDigit c = false → False := by
    intro c rest heq hc
    cases hpadded : padded width n with
    | nil => exact absurd hpadded hne
    | cons d ds =>
        rw [hpadded, List.cons_append, List.cons.injEq] at heq
        have hd := hdigits d (hpadded ▸ List.mem_cons_self)
        rw [heq.1, hc] at hd
        nomatch hd
  unfold year?
  rw [trimLeft_padded]
  split
  · exact (hsign '-' _ (by assumption) (by decide)).elim
  · exact (hsign '+' _ (by assumption) (by decide)).elim
  · have hlength := (length_padded_le hwidth hn).trans hshort
    rw [integer?_append hdigits hne hlength hafter, Option.map_some, hvalue]

theorem year?_yearText (year : Int) (hafter : Undigited after) :
    year? (yearText year ++ after) = some (year, after) := by
  unfold yearText
  by_cases hplain : 0 ≤ year ∧ year ≤ 9999
  · rw [if_pos hplain]
    have hsize : year.toNat < Decimal.tenPow 4 := by
      show year.toNat < 10000
      omega
    rw [year?_padded (by omega) (by omega) hsize hafter, Int.toNat_of_nonneg hplain.1]
  · rw [if_neg hplain]
    by_cases hnegative : year < 0
    · rw [if_pos hnegative]
      show ((longInteger? (padded 4 year.natAbs ++ after)).map _) = _
      rw [longInteger?_padded hafter, Option.map_some]
      dsimp only
      have hyear : -(year.natAbs : Int) = year := by omega
      rw [hyear]
    · rw [if_neg hnegative]
      show ((longInteger? (padded 4 year.natAbs ++ after)).map _) = _
      rw [longInteger?_padded hafter, Option.map_some]
      dsimp only
      have hyear : (year.natAbs : Int) = year := by omega
      rw [hyear]

theorem undigited_dash (rest : List Char) : Undigited ('-' :: rest) := undigited_cons (by decide)

theorem trimLeft_dash (rest : List Char) : Text.trimLeft ('-' :: rest) = '-' :: rest :=
  List.dropWhile_cons_of_neg (by decide)

end Calendar

open Calendar

theorem Date.small_fields (d : Date) : d.month < 100 ∧ d.day < 100 := by
  have hvalid := d.valid
  simp only [exists?, Bool.and_eq_true, decide_eq_true_eq] at hvalid
  obtain ⟨⟨-, hfirst⟩, hlast⟩ := hvalid
  have hdays : daysInMonth d.year d.month ≤ 31 ∧
      (12 < d.month → daysInMonth d.year d.month = 0) := by
    unfold daysInMonth
    split
    all_goals first
      | exact ⟨by omega, fun h => by omega⟩
      | (split <;> exact ⟨by omega, fun h => by omega⟩)
  constructor
  · by_cases hmonth : d.month < 100
    · exact hmonth
    · have hnone := hdays.2 (by omega)
      omega
  · omega

/-- A saved document gives back every date. -/
theorem Date.readSaved_toText (d : Date) : readSaved? d.toText.toList = some d := by
  obtain ⟨hmonth, hday⟩ := d.small_fields
  have hend := smallField?_padded hday Decimal.undigited_nil
  rw [List.append_nil] at hend
  have hblank : Text.trimLeft [] = [] := rfl
  unfold Date.toText Layout.write readSaved?
  rw [String.toList_ofList]
  dsimp only
  rw [List.append_assoc, List.cons_append, year?_yearText d.year (undigited_dash _)]
  simp only [Option.bind_eq_bind, Option.bind_some]
  rw [trimLeft_dash]
  simp only [mark?, if_true, Option.bind_some]
  rw [smallField?_padded hmonth (undigited_dash _)]
  simp only [Option.bind_some]
  rw [trimLeft_dash]
  simp only [if_true, Option.bind_some]
  rw [hend]
  simp only [Option.bind_some, hblank, if_true, Date.of?_self]

end Credence
