import Credence.Proofs.Decimal.Digits
import Credence.Proofs.Text.Gap
import Credence.Json.Decoding

/-!
# Numbers in documents

A number is read up to the first character that cannot continue it.  So what is read of a number
that stands alone is also read of it in front of a comma, a line break or the end of a list or an
object.
-/

namespace Credence.Json

open Decimal
open Text (skipGap isGap skipGap_cons skipGap_append skipGap_eq_nil_iff skipGap_append_of_cons
  isGap_of_isDigit)

variable {text rest after : List Char} {c : Char} {s : Spelling}

/-! ## Where numbers end -/

/-- No character that could continue a number stands at the front of a text. -/
def Ends (text : List Char) : Prop :=
  ∀ c rest, text = c :: rest → isDigit c = false ∧ c ≠ '.' ∧ c ≠ 'e' ∧ c ≠ 'E'

theorem ends_nil : Ends [] := fun _ _ h => nomatch h

theorem ends_cons (h : isDigit c = false ∧ c ≠ '.' ∧ c ≠ 'e' ∧ c ≠ 'E') : Ends (c :: rest) := by
  intro d rest' heq
  cases heq
  exact h

theorem Ends.undigited (h : Ends text) : Undigited text := fun c rest heq => (h c rest heq).1

theorem spanSign_append (htext : text ≠ []) :
    spanSign (text ++ after) = ((spanSign text).1, (spanSign text).2 ++ after) := by
  cases text with
  | nil => exact absurd rfl htext
  | cons c rest =>
      unfold spanSign
      split <;> simp_all

theorem exponentAhead_append {e : Option (Bool × List Char)}
    (h : exponentAhead text = some (e, rest)) (hafter : Ends after) :
    exponentAhead (text ++ after) = some (e, rest ++ after) := by
  cases text with
  | nil =>
      cases h
      cases after with
      | nil => rfl
      | cons c after =>
          obtain ⟨-, -, he, hE⟩ := hafter c after rfl
          exact if_neg (by simp [he, hE])
  | cons c text =>
      unfold exponentAhead at h
      rw [List.cons_append]
      unfold exponentAhead
      dsimp only at h ⊢
      by_cases hc : c = 'e' ∨ c = 'E'
      · rw [if_pos hc] at h ⊢
        have htext : text ≠ [] := by
          rintro rfl
          nomatch h
        rw [spanSign_append htext]
        dsimp only
        cases hspan : spanDigits (spanSign text).2 with
        | mk digits rest' =>
            rw [hspan] at h
            rw [spanDigits_append_right hspan hafter.undigited]
            cases digits with
            | nil => nomatch h
            | cons d digits =>
                cases h
                rfl
      · rw [if_neg hc] at h ⊢
        cases h
        rfl

theorem fractionAhead_append {f : Option (List Char)} (h : fractionAhead text = some (f, rest))
    (hafter : Ends after) : fractionAhead (text ++ after) = some (f, rest ++ after) := by
  by_cases hpoint : ∃ t, text = '.' :: t
  · obtain ⟨t, rfl⟩ := hpoint
    rw [List.cons_append]
    rw [fractionAhead] at h ⊢
    cases hspan : spanDigits t with
    | mk digits rest' =>
        rw [hspan] at h
        rw [spanDigits_append_right hspan hafter.undigited]
        cases digits with
        | nil => nomatch h
        | cons d digits =>
            cases h
            rfl
  · have hplain : ∀ t : List Char, (¬ ∃ u, t = '.' :: u) → fractionAhead t = some (none, t) := by
      intro t ht
      unfold fractionAhead
      split
      · exact absurd ⟨_, rfl⟩ ht
      · rfl
    rw [hplain text hpoint] at h
    cases h
    refine hplain _ ?_
    rintro ⟨u, hu⟩
    cases text with
    | nil => exact (hafter '.' u hu).2.1 rfl
    | cons c text =>
        rw [List.cons_append, List.cons.injEq] at hu
        exact hpoint ⟨text, by rw [hu.1]⟩

/-- Reads what follows the sign of a number. -/
def unsignedAhead (negative : Bool) (text : List Char) : Option (Spelling × List Char) := do
  let (whole, rest) := spanDigits text
  if whole = [] ∨ (whole.head? = some '0' ∧ 1 < whole.length) then none
  else
    let (fraction, rest) ← fractionAhead rest
    let (exponent, rest) ← exponentAhead rest
    some (⟨negative, whole, fraction, exponent⟩, rest)

theorem spellingAhead_of_ne (h : ∀ t, text ≠ '-' :: t) :
    spellingAhead text = unsignedAhead false text := by
  cases text with
  | nil => rfl
  | cons c t =>
      have hc : c ≠ '-' := fun hc => h t (by rw [hc])
      unfold spellingAhead unsignedAhead
      split
      rename_i heq
      split at heq
      · rename_i heq'
        exact absurd (List.cons.inj heq').1 hc
      · cases heq
        rfl

theorem unsignedAhead_append {negative : Bool} (h : unsignedAhead negative text = some (s, rest))
    (hafter : Ends after) : unsignedAhead negative (text ++ after) = some (s, rest ++ after) := by
  unfold unsignedAhead at h ⊢
  cases hspan : spanDigits text with
  | mk whole r =>
      rw [hspan] at h
      rw [spanDigits_append_right hspan hafter.undigited]
      dsimp only at h ⊢
      by_cases hwhole : whole = [] ∨ (whole.head? = some '0' ∧ 1 < whole.length)
      · rw [if_pos hwhole] at h
        nomatch h
      · rw [if_neg hwhole, Option.bind_eq_bind, Option.bind_eq_some_iff] at h
        obtain ⟨⟨fraction, r'⟩, hfraction, h⟩ := h
        rw [Option.bind_eq_bind, Option.bind_eq_some_iff] at h
        obtain ⟨⟨exponent, r''⟩, hexponent, h⟩ := h
        cases h
        rw [if_neg hwhole, fractionAhead_append hfraction hafter, Option.bind_eq_bind,
          Option.bind_some, exponentAhead_append hexponent hafter]
        rfl

/-- What follows a number does not change how it is read. -/
theorem spellingAhead_append (h : spellingAhead text = some (s, rest)) (hafter : Ends after) :
    spellingAhead (text ++ after) = some (s, rest ++ after) := by
  by_cases hminus : ∃ t, text = '-' :: t
  · obtain ⟨t, rfl⟩ := hminus
    exact unsignedAhead_append h hafter
  · have hne : ∀ t, text ≠ '-' :: t := fun t ht => hminus ⟨t, ht⟩
    rw [spellingAhead_of_ne hne] at h
    rw [← unsignedAhead_append h hafter]
    refine spellingAhead_of_ne fun t ht => ?_
    cases text with
    | nil => nomatch h
    | cons c text =>
        rw [List.cons_append, List.cons.injEq] at ht
        exact hne text (by rw [ht.1])

/-- A number begins with its sign or with a digit. -/
theorem spellingAhead_head (h : spellingAhead (c :: text) = some (s, rest)) :
    c = '-' ∨ isDigit c = true := by
  by_cases hc : c = '-'
  · exact Or.inl hc
  · refine Or.inr ?_
    rw [spellingAhead_of_ne fun t ht => hc (List.cons.inj ht).1] at h
    cases hdigit : isDigit c with
    | true => rfl
    | false =>
        unfold unsignedAhead spanDigits at h
        rw [List.takeWhile_cons_of_neg (by simp [hdigit])] at h
        simp at h

/-! ## Numbers that stand alone -/

/-- A text that is a number, with nothing but gap around it. -/
def Alone (text : List Char) : Prop :=
  ∃ s rest, spellingAhead (skipGap text) = some (s, rest) ∧ skipGap rest = []

/-- What a number is read as. -/
def Numeral.toDraft : Numeral → Draft
  | .integer n => .integer n
  | .number x => .number (some x)
  | .huge => .number none

/-- What the number at the front of a text is read as. -/
def numeralDraft (text : List Char) : Draft :=
  match spellingAhead (skipGap text) with
  | some (s, _) => s.numeral.toDraft
  | none => .broken

theorem readAt_numeral {n depth : Nat} {ahead : List Char}
    (hahead : spellingAhead (skipGap ahead) = some (s, rest)) :
    readAt (n + 1) depth ahead = (s.numeral.toDraft, some rest) := by
  cases hskip : skipGap ahead with
  | nil =>
      rw [hskip] at hahead
      nomatch hahead
  | cons c cs =>
      rw [hskip] at hahead
      have hne : ∀ d : Char, d ≠ '-' → isDigit d = false → c ≠ d := by
        rintro d hminus hdigit rfl
        rcases spellingAhead_head hahead with h | h
        · exact hminus h
        · rw [hdigit] at h
          nomatch h
      unfold readAt
      rw [hskip]
      dsimp only
      rw [if_neg (hne '[' (by decide) (by decide)), if_neg (hne '\x7b' (by decide) (by decide)),
        if_neg (hne '\x22' (by decide) (by decide)), if_neg (hne 'n' (by decide) (by decide)),
        if_neg (hne 't' (by decide) (by decide)), if_neg (hne 'f' (by decide) (by decide)), hahead]
      dsimp only
      cases s.numeral <;> rfl

/-- A number that stands alone is read in the same way in front of what ends it. -/
theorem Alone.readAt {n depth : Nat} {ahead : List Char} (htext : Alone text) (hafter : Ends after)
    (hahead : skipGap ahead = skipGap (text ++ after)) :
    ∃ rest, readAt (n + 1) depth ahead = (numeralDraft text, some rest) ∧
      skipGap rest = skipGap after := by
  obtain ⟨s, rest, hspelling, hrest⟩ := htext
  refine ⟨rest ++ after, ?_, skipGap_append (skipGap_eq_nil_iff.mp hrest) after⟩
  have hspelled : spellingAhead (skipGap ahead) = some (s, rest ++ after) := by
    cases hskip : skipGap text with
    | nil =>
        rw [hskip] at hspelling
        nomatch hspelling
    | cons c cs =>
        rw [hahead, skipGap_append_of_cons hskip, ← hskip]
        exact spellingAhead_append hspelling hafter
  rw [readAt_numeral hspelled, numeralDraft, hspelling]

theorem Alone.skipGap_eq_cons (htext : Alone text) (after : List Char) :
    ∃ c cs, skipGap (text ++ after) = c :: cs ∧ c ≠ ']' := by
  obtain ⟨s, rest, hspelling, -⟩ := htext
  cases hskip : skipGap text with
  | nil =>
      rw [hskip] at hspelling
      nomatch hspelling
  | cons c cs =>
      rw [hskip] at hspelling
      refine ⟨c, cs ++ after, skipGap_append_of_cons hskip after, ?_⟩
      rintro rfl
      rcases spellingAhead_head hspelling with h | h
      · nomatch h
      · exact absurd h (by decide)

/-- Every integer that is written stands alone. -/
theorem alone_integerText (n : Int) : Alone (integerText n) := by
  have hdigits : ∀ (negative : Bool) (m : Nat), unsignedAhead negative (digitsOf m) =
      some (⟨negative, digitsOf m, none, none⟩, []) := by
    intro negative m
    have hspan := spanDigits_append (fun c hc => isDigit_of_mem_digitsOf (n := m) hc) undigited_nil
    rw [List.append_nil] at hspan
    unfold unsignedAhead
    rw [hspan]
    dsimp only
    rw [if_neg]
    · rfl
    rintro (hnil | ⟨hzero, hlong⟩)
    · exact digitsOf_ne_nil m hnil
    · rcases Nat.eq_zero_or_pos m with rfl | hm
      · exact absurd hlong (by decide)
      · exact head_digitsOf hm hzero
  obtain ⟨c, cs, hcs, hc⟩ := exists_digitsOf_eq_cons n.natAbs
  unfold integerText Decimal.signed
  by_cases hn : n < 0
  · rw [if_pos (by simpa using hn)]
    exact ⟨⟨true, digitsOf n.natAbs, none, none⟩, [], hdigits true n.natAbs, rfl⟩
  · rw [if_neg (by simpa using hn)]
    refine ⟨⟨false, digitsOf n.natAbs, none, none⟩, [], ?_, rfl⟩
    rw [hcs, skipGap_cons (isGap_of_isDigit hc), ← hcs, ← hdigits false n.natAbs]
    refine spellingAhead_of_ne fun t ht => ?_
    rw [hcs, List.cons.injEq] at ht
    rw [ht.1] at hc
    exact absurd hc (by decide)

/-- Whether a draft is a number. -/
def Draft.isNumeral : Draft → Bool
  | .integer _ | .number _ => true
  | _ => false

/-- Only what begins with a number is read as one. -/
theorem spelling_of_isNumeral {n depth : Nat} {ahead : List Char}
    (h : (readAt (n + 1) depth ahead).1.isNumeral = true) :
    ∃ s rest, spellingAhead (skipGap ahead) = some (s, rest) := by
  have hword : ∀ (word : String) (d : Draft) (ahead : List Char), d.isNumeral = false →
      (wordAhead word d ahead).1.isNumeral = false := by
    intro word d ahead hd
    unfold wordAhead
    dsimp only
    split
    · exact hd
    · rfl
  unfold readAt at h
  cases hskip : skipGap ahead with
  | nil =>
      rw [hskip] at h
      nomatch h
  | cons c cs =>
      rw [hskip] at h
      dsimp only at h
      split at h
      · split at h <;> nomatch h
      split at h
      · split at h <;> nomatch h
      split at h
      · split at h <;> nomatch h
      split at h
      · rw [hword _ _ _ rfl] at h
        nomatch h
      split at h
      · rw [hword _ _ _ rfl] at h
        nomatch h
      split at h
      · rw [hword _ _ _ rfl] at h
        nomatch h
      split at h
      · exact ⟨_, _, by assumption⟩
      · nomatch h

/-- A number whose written form, as a document of its own, is read as the number. -/
def ReadsBack (x : Float) : Prop := decode Draft.asNumber (String.ofList (numberText x)) = .ok x

instance (x : Float) : Decidable (ReadsBack x) := inferInstanceAs (Decidable (_ = _))

/-- A number that reads back on its own stands alone, and its draft is the number. -/
theorem ReadsBack.alone {x : Float} (hx : ReadsBack x) :
    Alone (numberText x) ∧ (numeralDraft (numberText x)).asNumber = .ok x := by
  unfold ReadsBack decode draft at hx
  rw [String.toList_ofList] at hx
  cases hrun : readAt (2 * (numberText x).length + 1) 1 (numberText x) with
  | mk d after =>
      dsimp only at hx
      rw [hrun] at hx
      have hnumber : d.isNumeral = true := by
        cases d with
        | integer _ | number _ => rfl
        | broken | null | bool _ | text _ | list _ _ _ | object _ _ _ =>
            cases after <;> nomatch hx
      obtain ⟨s, rest, hspelling⟩ := spelling_of_isNumeral (by rw [hrun]; exact hnumber)
      rw [readAt_numeral hspelling] at hrun
      obtain ⟨rfl, rfl⟩ := Prod.mk.inj hrun
      have hdraft : numeralDraft (numberText x) = s.numeral.toDraft := by
        rw [numeralDraft, hspelling]
      rw [hdraft]
      dsimp only at hx
      cases hvalue : s.numeral.toDraft.asNumber with
      | error e =>
          rw [hvalue] at hx
          nomatch hx
      | ok y =>
          rw [hvalue] at hx
          change Draft.atEnd (skipGap rest).isEmpty y = .ok x at hx
          unfold Draft.atEnd at hx
          split at hx
          · rename_i hrest
            cases hx
            exact ⟨⟨s, rest, hspelling, List.isEmpty_iff.mp hrest⟩, rfl⟩
          · nomatch hx

end Credence.Json
