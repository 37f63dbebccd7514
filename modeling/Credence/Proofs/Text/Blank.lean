import Credence.Proofs.Text.Gap
import Credence.Text.Letter

/-!
# Blanks

Every gap is blank, and there are more blanks than gaps.  None of them belongs to a name, so in a
text whose blanks are gaps trimming takes off gaps only.  Digits are not blank either.
-/

namespace Credence.Text

variable {text : List Char} {c : Char} {bounds : List (Nat × Nat)}

/-! ## Tables -/

/-- A run that is found holds what was looked for. -/
theorem RunTable.mem_of_search {α : Type} {t : RunTable α} {n fuel lo hi : Nat} {r : Run α}
    (h : t.search n fuel lo hi = some r) : r ∈ t ∧ r.first ≤ n ∧ n ≤ r.last := by
  induction fuel generalizing lo hi with
  | zero => cases h
  | succ fuel ih =>
      unfold search at h
      split at h
      · dsimp only at h
        cases hmid : t[(lo + hi) / 2]? with
        | none =>
            rw [hmid] at h
            cases h
        | some found =>
            simp only [hmid] at h
            split at h
            · exact ih h
            · split at h
              · exact ih h
              · obtain rfl := Option.some.inj h
                exact ⟨Array.mem_of_getElem? hmid, by omega, by omega⟩
      · cases h

theorem exists_bounds_of_holds (h : (runsOf bounds).holds c = true) :
    ∃ b ∈ bounds, b.1 ≤ c.toNat ∧ c.toNat ≤ b.2 := by
  obtain ⟨r, hr⟩ := Option.isSome_iff_exists.mp h
  obtain ⟨hmem, hfirst, hlast⟩ := RunTable.mem_of_search hr
  obtain ⟨b, hb, rfl⟩ := List.mem_map.mp (List.mem_toArray.mp hmem)
  exact ⟨b, hb, hfirst, hlast⟩

/-! ## Blanks and names -/

/-- The blanks outside ASCII. -/
def highBlanks : List Nat :=
  [0x85, 0xA0, 0x1680] ++ List.range' 0x2000 11 ++ [0x2028, 0x2029, 0x202F, 0x205F, 0x3000]

/-- A table has no blank if none of its runs does. -/
theorem not_holds_of_isBlank (hc : isBlank c = true) (hhigh : ¬ c.toNat < 0x80)
    (hall : bounds.all (fun b => highBlanks.all fun n => n < b.1 || b.2 < n) = true) :
    (runsOf bounds).holds c = false := by
  cases h : (runsOf bounds).holds c with
  | false => rfl
  | true =>
      obtain ⟨b, hb, hfirst, hlast⟩ := exists_bounds_of_holds h
      have hmem : c.toNat ∈ highBlanks := by
        simp only [isBlank, Bool.or_eq_true, Bool.and_eq_true, decide_eq_true_eq, beq_iff_eq] at hc
        simp only [highBlanks, List.mem_append, List.mem_range'_1, List.mem_cons, List.not_mem_nil,
          or_false]
        omega
      have hout := List.all_eq_true.mp (List.all_eq_true.mp hall b hb) _ hmem
      simp only [Bool.or_eq_true, decide_eq_true_eq] at hout
      omega

/-- No blank belongs to a name. -/
theorem isNameChar_of_isBlank (hc : isBlank c = true) : isNameChar c = false := by
  by_cases hlow : c.toNat < 0x80
  · have hall : ∀ n < 0x80, isBlank (Char.ofNat n) = true → isNameChar (Char.ofNat n) = false := by
      decide
    have hname := hall c.toNat hlow
    rw [Char.ofNat_toNat] at hname
    exact hname hc
  · have hletter : isAlphabetic c = false := by
      rw [isAlphabetic, if_neg hlow]
      exact not_holds_of_isBlank hc hlow (by decide +kernel)
    have hnumeral : isNumeral c = false := by
      rw [isNumeral, if_neg hlow]
      exact not_holds_of_isBlank hc hlow (by decide +kernel)
    have hline : c ≠ '_' := by
      rintro rfl
      exact hlow (by decide)
    simp [isNameChar, isAlphanumeric, hletter, hnumeral, hline]

theorem isBlank_of_isDigit (hc : Decimal.isDigit c = true) : isBlank c = false := by
  have hdigit : 48 ≤ c.toNat ∧ c.toNat ≤ 57 := by
    simp only [Decimal.isDigit, Bool.and_eq_true, decide_eq_true_eq, Char.le_def,
      UInt32.le_iff_toNat_le] at hc
    exact hc
  cases hblank : isBlank c with
  | false => rfl
  | true =>
      simp only [isBlank, Bool.or_eq_true, Bool.and_eq_true, decide_eq_true_eq, beq_iff_eq] at hblank
      omega

theorem isBlank_of_isGap (hc : isGap c = true) : isBlank c = true := of_isGap (by decide) hc

theorem isNameChar_of_isGap (hc : isGap c = true) : isNameChar c = false :=
  isNameChar_of_isBlank (isBlank_of_isGap hc)

/-! ## Trimming -/

/-- A text without blanks stays as it is. -/
theorem trimChars_eq_self (htext : ∀ c ∈ text, isBlank c = false) : trimChars text = text := by
  have hdrop : ∀ chars : List Char, (∀ c ∈ chars, isBlank c = false) →
      chars.dropWhile isBlank = chars := by
    intro chars hchars
    cases chars with
    | nil => rfl
    | cons c rest => exact List.dropWhile_cons_of_neg (by simp [hchars])
  rw [trimChars, trimLeft, hdrop text htext, hdrop text.reverse, List.reverse_reverse]
  exact fun c hc => htext c (List.mem_reverse.mp hc)

/-- Trimming takes off gaps, where all blanks are gaps. -/
theorem exists_isGap_trimChars (htext : ∀ c ∈ text, isBlank c = true → isGap c = true) :
    ∃ before after, IsGap before ∧ IsGap after ∧ text = before ++ trimChars text ++ after := by
  have hleft : text = text.takeWhile isBlank ++ trimLeft text :=
    List.takeWhile_append_dropWhile.symm
  have hright : trimLeft text =
      trimChars text ++ ((trimLeft text).reverse.takeWhile isBlank).reverse := by
    calc trimLeft text = (trimLeft text).reverse.reverse := (List.reverse_reverse _).symm
      _ = ((trimLeft text).reverse.takeWhile isBlank ++
            (trimLeft text).reverse.dropWhile isBlank).reverse := by
          rw [List.takeWhile_append_dropWhile]
      _ = trimChars text ++ ((trimLeft text).reverse.takeWhile isBlank).reverse := by
          rw [List.reverse_append, trimChars]
  refine ⟨text.takeWhile isBlank, ((trimLeft text).reverse.takeWhile isBlank).reverse, ?_, ?_, ?_⟩
  · intro c hc
    exact htext c ((List.takeWhile_sublist _).mem hc) (List.mem_takeWhile_imp hc)
  · intro c hc
    have hc := List.mem_reverse.mp hc
    have hmem : c ∈ trimLeft text := List.mem_reverse.mp ((List.takeWhile_sublist _).mem hc)
    exact htext c ((List.dropWhile_sublist _).mem hmem) (List.mem_takeWhile_imp hc)
  · rw [List.append_assoc, ← hright]
    exact hleft

end Credence.Text
