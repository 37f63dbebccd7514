import Credence.Decimal.Layout
import Credence.Decimal.Reading
import Mathlib.Data.List.TakeWhile

/-!
# Digits read back

What `digitsOf` writes consists of digits, has no leading zero and spells the number.  A run of
digits ends where the first other character stands, so whatever follows a number is left alone.
-/

namespace Credence.Decimal

variable {text digits rest after : List Char} {c : Char} {n : Nat}

theorem isDigit_of_mem_digitsOf (hc : c ∈ digitsOf n) : isDigit c = true :=
  Nat.isDigit_of_mem_toDigits (by omega) (by omega) hc

theorem digitsOf_ne_nil (n : Nat) : digitsOf n ≠ [] := Nat.toDigits_ne_nil

theorem exists_digitsOf_eq_cons (n : Nat) :
    ∃ c cs, digitsOf n = c :: cs ∧ isDigit c = true := by
  cases h : digitsOf n with
  | nil => exact absurd h (digitsOf_ne_nil n)
  | cons c cs =>
      exact ⟨c, cs, rfl, isDigit_of_mem_digitsOf (n := n) (h ▸ List.mem_cons_self)⟩

/-- The digits of a number spell it. -/
@[simp] theorem digitsValue_digitsOf (n : Nat) : digitsValue (digitsOf n) = n :=
  Nat.ofDigitChars_ten_toDigits

/-- Leading zeros do not count. -/
@[simp] theorem digitsValue_zeros_append (k : Nat) (digits : List Char) :
    digitsValue (zeros k ++ digits) = digitsValue digits := by
  show Nat.ofDigitChars 10 (List.replicate k '0' ++ digits) 0 = Nat.ofDigitChars 10 digits 0
  rw [Nat.ofDigitChars_append, Nat.ofDigitChars_replicate_zero, Nat.mul_zero]

/-- Only zero begins with a zero. -/
theorem head_digitsOf (hn : 0 < n) : (digitsOf n).head? ≠ some '0' := by
  induction n using Nat.strongRecOn with
  | ind n ih =>
      unfold digitsOf at ih ⊢
      rw [Nat.toDigits_eq_if (by omega)]
      split
      · rename_i hsmall
        have hchar : ∀ m, m < 10 → 0 < m → [Nat.digitChar m].head? ≠ some '0' := by decide
        exact hchar n hsmall hn
      · rename_i hlarge
        have hhead := ih (n / 10) (Nat.div_lt_self hn (by omega)) (by omega)
        cases hdigits : Nat.toDigits 10 (n / 10) with
        | nil => exact absurd hdigits Nat.toDigits_ne_nil
        | cons d ds =>
            rw [hdigits] at hhead
            exact hhead

/-- The digits to the base of sixteen. -/
theorem mem_toDigits (hc : c ∈ Nat.toDigits 16 n) : ∃ k, k < 16 ∧ c = Nat.digitChar k := by
  induction n using Nat.strongRecOn with
  | ind n ih =>
      rw [Nat.toDigits_eq_if (by omega)] at hc
      split at hc
      · exact ⟨n, by assumption, List.mem_singleton.mp hc⟩
      · rcases List.mem_append.mp hc with hc | hc
        · exact ih (n / 16) (by omega) hc
        · exact ⟨n % 16, by omega, List.mem_singleton.mp hc⟩

/-! ## Where digits end -/

/-- No digit stands at the front of a text. -/
def Undigited (text : List Char) : Prop := ∀ c rest, text = c :: rest → isDigit c = false

theorem undigited_nil : Undigited [] := fun _ _ h => nomatch h

theorem undigited_cons (hc : isDigit c = false) : Undigited (c :: rest) := by
  intro d rest' h
  cases h
  exact hc

/-- A run of digits ends in front of what is no digit. -/
theorem spanDigits_append (hdigits : ∀ c ∈ digits, isDigit c = true) (hafter : Undigited after) :
    spanDigits (digits ++ after) = (digits, after) := by
  unfold spanDigits
  rw [List.takeWhile_append_of_pos hdigits, List.dropWhile_append_of_pos hdigits]
  cases after with
  | nil => simp
  | cons c rest =>
      have hc := hafter c rest rfl
      rw [List.takeWhile_cons_of_neg (by simp [hc]), List.dropWhile_cons_of_neg (by simp [hc]),
        List.append_nil]

theorem spanDigits_eq (h : spanDigits text = (digits, rest)) :
    text = digits ++ rest ∧ (∀ c ∈ digits, isDigit c = true) ∧ Undigited rest := by
  unfold spanDigits at h
  obtain ⟨rfl, rfl⟩ := Prod.mk.inj h
  refine ⟨List.takeWhile_append_dropWhile.symm, fun c hc => List.mem_takeWhile_imp hc, ?_⟩
  intro c rest hrest
  have hhead := List.head?_dropWhile_not isDigit text
  rw [hrest] at hhead
  exact hhead

/-- More text behind a number does not change where its digits end. -/
theorem spanDigits_append_right (h : spanDigits text = (digits, rest)) (hafter : Undigited after) :
    spanDigits (text ++ after) = (digits, rest ++ after) := by
  obtain ⟨htext, hdigits, hrest⟩ := spanDigits_eq h
  rw [htext, List.append_assoc]
  refine spanDigits_append hdigits ?_
  cases rest with
  | nil => exact hafter
  | cons c rest => exact undigited_cons (hrest c rest rfl)

/-! ## Literals -/

/-- Digits, and perhaps a point and more digits. -/
def IsLiteral (text : List Char) : Prop :=
  ∃ whole, whole ≠ [] ∧ (∀ c ∈ whole, isDigit c = true) ∧
    (text = whole ∨
      ∃ fraction, fraction ≠ [] ∧ (∀ c ∈ fraction, isDigit c = true) ∧
        text = whole ++ '.' :: fraction)

end Credence.Decimal
