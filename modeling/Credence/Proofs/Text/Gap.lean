import Credence.Decimal.Reading
import Mathlib.Data.List.TakeWhile

/-!
# Gaps

What skipping a gap leaves: nothing, or a text that begins with a character that is no gap.
-/

namespace Credence.Text

/-- Characters that may stand between tokens. -/
def IsGap (gap : List Char) : Prop := ∀ c ∈ gap, isGap c = true

instance (gap : List Char) : Decidable (IsGap gap) :=
  decidable_of_iff (gap.all isGap = true) List.all_eq_true

variable {text rest gap gap' : List Char} {c : Char}

/-- The characters that may stand between tokens, one by one. -/
def gaps : List Char := [' ', '\t', '\n', '\r']

theorem mem_gaps_iff : c ∈ gaps ↔ isGap c = true := by simp [gaps, isGap, or_assoc]

/-- A character that passes a test which all gaps fail is no gap. -/
theorem isGap_eq_false_of {test : Char → Bool} (htest : gaps.any test = false)
    (hc : test c = true) : isGap c = false := by
  refine Bool.eq_false_iff.mpr fun hgap => ?_
  have hany : gaps.any test = true := List.any_eq_true.mpr ⟨c, mem_gaps_iff.mpr hgap, hc⟩
  exact Bool.false_ne_true (htest.symm.trans hany)

/-- What all gaps pass is passed by a gap. -/
theorem of_isGap {test : Char → Bool} (htest : gaps.all test = true) (hc : isGap c = true) :
    test c = true :=
  List.all_eq_true.mp htest c (mem_gaps_iff.mpr hc)

theorem isGap_nil : IsGap [] := by simp [IsGap]

theorem IsGap.append (h : IsGap gap) (h' : IsGap gap') : IsGap (gap ++ gap') :=
  List.forall_mem_append.mpr ⟨h, h'⟩

theorem ne_of_isGap (hc : isGap c = true) {d : Char} (hd : isGap d = false) : c ≠ d := by
  rintro rfl
  exact nomatch hc.symm.trans hd

theorem skipGap_cons (hc : isGap c = false) (text : List Char) : skipGap (c :: text) = c :: text :=
  List.dropWhile_cons_of_neg (by simp [hc])

theorem skipGap_append (hgap : ∀ c ∈ text, isGap c = true) (after : List Char) :
    skipGap (text ++ after) = skipGap after :=
  List.dropWhile_append_of_pos hgap

theorem skipGap_eq_nil_iff : skipGap text = [] ↔ ∀ c ∈ text, isGap c = true :=
  List.dropWhile_eq_nil_iff

/-- What is skipped of a text is a gap. -/
theorem exists_isGap (text : List Char) : ∃ gap, IsGap gap ∧ text = gap ++ skipGap text :=
  ⟨text.takeWhile isGap, fun _ hc => List.mem_takeWhile_imp hc,
    List.takeWhile_append_dropWhile.symm⟩

theorem isGap_of_isDigit (hc : Decimal.isDigit c = true) : isGap c = false :=
  isGap_eq_false_of (by decide) hc

/-- What was skipped is gap, and what remains begins otherwise. -/
theorem skipGap_eq_cons (h : skipGap text = c :: rest) :
    isGap c = false ∧ ∃ gap : List Char, (∀ c ∈ gap, isGap c = true) ∧ text = gap ++ c :: rest := by
  refine ⟨?_, text.takeWhile isGap, fun c hc => List.mem_takeWhile_imp hc, ?_⟩
  · have hhead := List.head?_dropWhile_not isGap text
    rw [show text.dropWhile isGap = c :: rest from h] at hhead
    exact hhead
  · rw [← h]
    exact List.takeWhile_append_dropWhile.symm

theorem skipGap_append_of_cons (h : skipGap text = c :: rest) (after : List Char) :
    skipGap (text ++ after) = c :: rest ++ after := by
  obtain ⟨hc, gap, hgap, rfl⟩ := skipGap_eq_cons h
  rw [List.append_assoc, skipGap_append hgap]
  exact skipGap_cons hc _

@[simp] theorem skipGap_skipGap (text : List Char) : skipGap (skipGap text) = skipGap text := by
  cases h : skipGap text with
  | nil => rfl
  | cons c rest => exact skipGap_cons (skipGap_eq_cons h).1 rest

theorem length_skipGap_le (text : List Char) : (skipGap text).length ≤ text.length :=
  (List.dropWhile_sublist isGap).length_le

end Credence.Text
