import Credence.Proofs.Condition.Brackets
import Credence.Proofs.Condition.Levels
import Credence.Proofs.Text.Blank

/-!
# Parsing what is written

A text that comes apart into tokens, and whose tokens are written by the strict rules, is parsed as
the tree that they write.  Besides the grammar, parsing asks that the text is not blank and that its
parentheses match.
-/

namespace Credence.Expr

open Grammar Credence.Parser
open Text (skipGap isGap isBlank isBlank_of_isDigit trimLeft)

variable {c : Char} {s r : List Char} {t : Token} {ts : List Token} {e : Expr} {text : String}

/-! ## A written text is not blank -/

theorem exists_not_blank (h : t.Starts s r) (ht : t.kind ≠ 3) : ∃ c ∈ s, isBlank c = false := by
  cases t with
  | number x =>
      obtain ⟨ds, ⟨whole, hne, hdigits, hds⟩, rfl, -⟩ := literal_of_number h
      obtain ⟨c, hc⟩ := List.exists_mem_of_ne_nil whole hne
      refine ⟨c, ?_, isBlank_of_isDigit (hdigits c hc)⟩
      obtain rfl | ⟨fraction, -, -, rfl⟩ := hds <;> simp [hc]
  | text v =>
      obtain ⟨quote, content, written, hquote, -, rfl, -⟩ := quotation_eq_success.mp h
      refine ⟨quote, by simp, ?_⟩
      obtain rfl | rfl := hquote <;> decide
  | parameter name tag =>
      obtain ⟨-, -, rfl, -⟩ := parameter_eq_success.mp h
      exact ⟨'#', by cases tag <;> simp [Slot.toText], by decide⟩
  | word w => exact absurd rfl ht
  | mark m =>
      obtain ⟨hm, rfl, -⟩ := h
      have hall : marks.all (fun m => m.toList.any fun c => !isBlank c) = true := by decide
      obtain ⟨c, hc, hblank⟩ := List.any_eq_true.mp (List.all_eq_true.mp hall m hm)
      exact ⟨c, by simp [hc], by simpa using hblank⟩

theorem mem_of_mem_skipGap (h : c ∈ skipGap s) : c ∈ s := (List.dropWhile_sublist isGap).mem h

theorem Token.Starts.mem (h : t.Starts s r) (hc : c ∈ r) : c ∈ s := by
  obtain ⟨c', w, rfl, -, -⟩ := h.head
  simp [hc]

theorem trimLeft_ne_nil (h : Scans s ts []) (hts : BeginsOperand ts) : trimLeft s ≠ [] := by
  intro hnil
  have hblank := List.dropWhile_eq_nil_iff.mp hnil
  cases h with
  | done _ => exact hts
  | @token _ mid _ t ts first others =>
      by_cases hkind : t.kind = 3
      · -- a word is followed by its parenthesis
        cases others with
        | done _ =>
            cases t with
            | word w => exact hts
            | number _ | text _ | parameter _ _ | mark _ => cases hkind
        | @token _ mid' _ t' ts second others =>
            cases t with
            | word w =>
                cases t' with
                | mark m =>
                    obtain ⟨c, hc, hne⟩ := exists_not_blank second (by simp [Token.kind])
                    rw [hblank c (mem_of_mem_skipGap (first.mem (mem_of_mem_skipGap hc)))] at hne
                    cases hne
                | number _ | text _ | parameter _ _ | word _ => exact hts
            | number _ | text _ | parameter _ _ | mark _ => cases hkind
      · obtain ⟨c, hc, hne⟩ := exists_not_blank first hkind
        rw [hblank c (mem_of_mem_skipGap hc)] at hne
        cases hne

/-! ## Parsing -/

theorem condition_of_spells (hscans : Scans s ts []) (h : Spells false 0 e ts) :
    condition s.length s = .success e [] := by
  have hrow : Scans (skipGap s) (ts ++ []) [] := by simpa using hscans.skipGap_left
  have hlength := hscans.length_le
  obtain ⟨r, hr, hrest⟩ := (reads_calls (s.length + 1)).1 h (by omega) hrow (stops_nil 0)
  cases hrest with
  | done hnil =>
      exact toEnd_eq_success.mpr ⟨spaced_eq_success.mpr ⟨r, hr, hnil⟩, rfl⟩

theorem parse_eq_ok : parse text = .ok e ↔ trimLeft text.toList ≠ [] ∧
    checkBrackets text.toList = .ok () ∧
    ∃ r, condition text.toList.length text.toList = .success e r := by
  unfold parse
  by_cases hblank : trimLeft text.toList = []
  · simp [hblank, throw, throwThe, MonadExceptOf.throw, Bind.bind, Except.bind]
  · cases hbrackets : checkBrackets text.toList with
    | error reason => simp [hblank, hbrackets, Bind.bind, Except.bind]
    | ok =>
        cases hcondition : condition text.toList.length text.toList with
        | success e' r =>
            simp [hblank, hbrackets, hcondition, Bind.bind, Except.bind, Pure.pure, Except.pure]
        | refusal place reason | failure place reason =>
            simp [hblank, hbrackets, hcondition, Bind.bind, Except.bind, throw, throwThe,
              MonadExceptOf.throw]

theorem parse_of_spells (hscans : Scans text.toList ts []) (h : Spells false 0 e ts) :
    parse text = .ok e :=
  parse_eq_ok.mpr ⟨trimLeft_ne_nil hscans h.begins, checkBrackets_eq_ok hscans h, [],
    condition_of_spells hscans h⟩

end Credence.Expr
