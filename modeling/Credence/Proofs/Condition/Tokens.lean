import Credence.Condition.Parser
import Credence.Proofs.Decimal.Digits
import Credence.Proofs.Parsing.Outcome
import Credence.Proofs.Text.Gap

/-!
# The tokens of a condition

A condition is a row of tokens with gaps between them.  The grammar has no pass of its own for
tokens: each of its parsers looks at characters.  Here a text is taken apart into tokens first
(`Scans`), and then it is shown for each parser that looks at characters what it makes of a text
whose next token is known.

What stands next decides by its first character which kind of token it is, and a sign is never
part of a longer one.  So a text comes apart in one way only.
-/

namespace Credence.Expr

/-- A token of a condition. -/
inductive Token where
  | number (x : Float)
  /-- A quotation. -/
  | text (s : String)
  /-- A concept with its tag. -/
  | parameter (concept : String) (tag : Option String)
  | word (w : String)
  /-- An operator sign, a bracket, a point, a comma or a place of the query. -/
  | mark (sign : String)

namespace Grammar

open Credence.Parser
open Decimal (IsLiteral)
open Text (skipGap isGap isAlphabetic isNameChar)

variable {s r s' r' rest z w : List Char} {c d : Char} {t t' : Token} {ts ts' : List Token}
  {e : Expr} {inner : Calls} {name : String} {tag : Option String}

/-! ## Words -/

/-- Whether characters form a word. -/
def IsWord (cs : List Char) : Prop :=
  ∃ c rest, cs = c :: rest ∧ (isAlphabetic c = true ∨ c = '_') ∧ ∀ d ∈ rest, isNameChar d = true

/-- Whether characters form a word, computed. -/
def isWord : List Char → Bool
  | [] => false
  | c :: rest => (isAlphabetic c || c = '_') && rest.all isNameChar

theorem isWord_iff {cs : List Char} : isWord cs = true ↔ IsWord cs := by
  cases cs with
  | nil => simp [isWord, IsWord]
  | cons c rest =>
      simp only [isWord, IsWord, Bool.and_eq_true, Bool.or_eq_true, decide_eq_true_eq,
        List.all_eq_true, List.cons.injEq]
      constructor
      · intro h
        exact ⟨c, rest, ⟨rfl, rfl⟩, h⟩
      · rintro ⟨d, rest', ⟨rfl, rfl⟩, h⟩
        exact h

theorem nameChars_eq_success :
    nameChars s = .success w r ↔
      IsWord w ∧ s = w ++ r ∧ ∀ c ∈ r.head?, isNameChar c = false := by
  simp only [nameChars, bind_eq_success, charWhere_eq_success, spanWhere_eq_success,
    pure_eq_success, Bool.or_eq_true, decide_eq_true_eq]
  constructor
  · rintro ⟨c, rest, ⟨rfl, hc⟩, cs, rest', ⟨rfl, hcs, hr⟩, rfl, rfl⟩
    exact ⟨⟨c, cs, rfl, hc, hcs⟩, rfl, hr⟩
  · rintro ⟨⟨c, cs, rfl, hc, hcs⟩, rfl, hr⟩
    exact ⟨c, cs ++ r, ⟨rfl, hc⟩, cs, r, ⟨rfl, hcs, hr⟩, rfl, rfl⟩

theorem identifier_eq_success :
    identifier s = .success name r ↔ nameChars s = .success name.toList r ∧ name.toList ∉ reserved := by
  unfold identifier
  cases nameChars s with
  | success cs rest =>
      by_cases hcs : cs ∈ reserved
      · simp only [hcs, if_true, reduceCtorEq, Outcome.success.injEq, false_iff, not_and]
        rintro ⟨rfl, -⟩
        exact not_not_intro hcs
      · simp only [hcs, if_false, Outcome.success.injEq]
        constructor
        · rintro ⟨rfl, rfl⟩
          simpa using hcs
        · rintro ⟨⟨rfl, rfl⟩, -⟩
          simp
  | refusal place reason => simp
  | failure place reason => simp

theorem gentle_nameChars : Gentle nameChars :=
  gentle_charWhere.bind fun _ => gentle_spanWhere.bind fun _ => gentle_pure

theorem gentle_identifier : Gentle identifier := by
  intro s place reason h
  unfold identifier at h
  cases hs : nameChars s with
  | success cs rest =>
      rw [hs] at h
      dsimp only at h
      split at h <;> exact nomatch h
  | refusal place' reason' =>
      rw [hs] at h
      exact nomatch h
  | failure place' reason' => exact gentle_nameChars _ _ _ hs

theorem gentle_keyword {word : String} : Gentle (keyword word) :=
  gentle_exactly.bind fun _ => gentle_notAhead

theorem keyword_eq_success {word : String} (hword : IsWord word.toList) {u : Unit} :
    keyword word s = .success u r ↔ nameChars s = .success word.toList r := by
  simp only [keyword, bind_eq_success, exactly_eq_success, notAhead_eq_success,
    accepts_charWhere, nameChars_eq_success]
  constructor
  · rintro ⟨-, rest, rfl, rfl, hrest⟩
    exact ⟨hword, rfl, hrest⟩
  · rintro ⟨-, rfl, hr⟩
    exact ⟨(), r, rfl, rfl, hr⟩

/-! ## Numbers -/

/-- What cannot continue a number: a digit neither at once nor behind a point. -/
def AfterNumber (r : List Char) : Prop :=
  (∀ c ∈ r.head?, Decimal.isDigit c = false) ∧
    ∀ c rest, r = '.' :: c :: rest → Decimal.isDigit c = false

/-- The point and the digits after it. -/
def fractionPart : Rule (List Char) := do
  let _ ← char '.'
  someWhere Decimal.isDigit

theorem number_eq_success :
    number s = .success e r ↔ ∃ whole mid fraction,
      (someWhere Decimal.isDigit : Rule (List Char)) s = .success whole mid ∧
      optional? fractionPart mid = .success fraction r ∧
      e = .number ((Decimal.readChars? (match fraction with
        | some fraction => whole ++ '.' :: fraction
        | none => whole)).getD 0) := by
  show (someWhere Decimal.isDigit >>= fun whole => optional? fractionPart >>= fun fraction =>
    Pure.pure (Expr.number ((Decimal.readChars? (match fraction with
        | some fraction => whole ++ '.' :: fraction
        | none => whole)).getD 0))) s = _ ↔ _
  simp only [bind_eq_success, pure_eq_success]
  constructor
  · rintro ⟨whole, mid, hwhole, fraction, rest, hfraction, rfl, rfl⟩
    exact ⟨whole, mid, fraction, hwhole, hfraction, rfl⟩
  · rintro ⟨whole, mid, fraction, hwhole, hfraction, rfl⟩
    exact ⟨whole, mid, hwhole, fraction, r, hfraction, rfl, rfl⟩

theorem number_append {ds : List Char} (hds : IsLiteral ds) (hr : AfterNumber r) :
    number (ds ++ r) = .success (.number ((Decimal.readChars? ds).getD 0)) r := by
  rw [number_eq_success]
  obtain ⟨whole, hne, hwhole, rfl | ⟨fraction, hfne, hfraction, rfl⟩⟩ := hds
  · refine ⟨ds, r, none, someWhere_eq_success.mpr ⟨hne, rfl, hwhole, hr.1⟩, ?_, rfl⟩
    refine optional?_eq_success.mpr (.inr ⟨rfl, rfl, ?_⟩)
    simp only [fractionPart, refuses_bind, refuses_char, char_eq_success, refuses_someWhere]
    cases r with
    | nil => simp
    | cons c r =>
        by_cases hc : c = '.'
        · subst hc
          refine .inr ⟨'.', r, ⟨rfl, rfl⟩, ?_⟩
          cases r with
          | nil => simp
          | cons c r => simpa using hr.2 c r rfl
        · exact .inl (by simpa using hc)
  · refine ⟨whole, '.' :: fraction ++ r, some fraction, someWhere_eq_success.mpr
      ⟨hne, by simp, hwhole, by simp; decide⟩, ?_, rfl⟩
    refine optional?_eq_success.mpr (.inl ⟨fraction, rfl, ?_⟩)
    simp only [fractionPart, bind_eq_success, char_eq_success, someWhere_eq_success]
    exact ⟨'.', fraction ++ r, ⟨rfl, rfl⟩, hfne, rfl, hfraction, hr.1⟩

theorem literal_of_number (h : number s = .success e r) :
    ∃ ds, IsLiteral ds ∧ s = ds ++ r ∧ e = .number ((Decimal.readChars? ds).getD 0) := by
  obtain ⟨whole, mid, fraction, hwhole, hfraction, rfl⟩ := number_eq_success.mp h
  obtain ⟨hne, rfl, hdigits, -⟩ := someWhere_eq_success.mp hwhole
  obtain ⟨digits, rfl, hpart⟩ | ⟨rfl, rfl, -⟩ := optional?_eq_success.mp hfraction
  · simp only [fractionPart, bind_eq_success, char_eq_success, someWhere_eq_success] at hpart
    obtain ⟨-, rest, ⟨rfl, -⟩, hfne, rfl, hfraction, -⟩ := hpart
    exact ⟨whole ++ '.' :: digits, ⟨whole, hne, hdigits, .inr ⟨digits, hfne, hfraction, rfl⟩⟩,
      by simp, rfl⟩
  · exact ⟨whole, ⟨whole, hne, hdigits, .inl rfl⟩, rfl, rfl⟩

theorem refuses_number : number.Refuses s ↔ ∀ c ∈ s.head?, Decimal.isDigit c = false := by
  simp [number, refuses_someWhere]

/-! ## Quotations -/

/-- How a content is written inside quotes: a backslash may hide any character, and hides the quote
and every backslash. -/
inductive Quoted (quote : Char) : List Char → List Char → Prop
  | nil : Quoted quote [] []
  | plain {c : Char} {content written : List Char} (hquote : c ≠ quote) (hslash : c ≠ '\\')
      (others : Quoted quote content written) : Quoted quote (c :: content) (c :: written)
  | hidden {c : Char} {content written : List Char} (others : Quoted quote content written) :
      Quoted quote (c :: content) ('\\' :: c :: written)

variable {quote : Char} {content written : List Char}

theorem quotedChar_eq_success :
    quotedChar quote s = .success c r ↔
      s = '\\' :: c :: r ∨ s = c :: r ∧ c ≠ quote ∧ c ≠ '\\' := by
  simp only [quotedChar, orElse_eq_success, bind_eq_success, char_eq_success,
    charWhere_eq_success, refuses_bind, refuses_char, Bool.and_eq_true, decide_eq_true_eq,
    and_true]
  constructor
  · rintro (⟨-, rest, ⟨rfl, -⟩, rfl⟩ | ⟨-, rfl, hquote, hslash⟩)
    · exact .inl rfl
    · exact .inr ⟨rfl, hquote, hslash⟩
  · rintro (rfl | ⟨rfl, hquote, hslash⟩)
    · exact .inl ⟨'\\', c :: r, ⟨rfl, rfl⟩, rfl⟩
    · exact .inr ⟨.inl (by simpa using hslash), rfl, hquote, hslash⟩

theorem gentle_quotedChar : Gentle (quotedChar quote) :=
  (gentle_char.bind fun _ => gentle_charWhere).orElse gentle_charWhere

/-- Characters that need no backslash are read as they stand. -/
theorem quoted_self (h : ∀ c ∈ content, c ≠ quote ∧ c ≠ '\\') : Quoted quote content content := by
  induction content with
  | nil => exact .nil
  | cons c content ih =>
      obtain ⟨⟨hquote, hslash⟩, hrest⟩ := List.forall_mem_cons.mp h
      exact .plain hquote hslash (ih hrest)

theorem Quoted.turns (h : Quoted quote content written) (r : List Char) :
    Turns (quotedChar quote) (written ++ r) content r := by
  induction h with
  | nil => exact .done
  | plain hquote hslash others ih =>
      exact .turn (quotedChar_eq_success.mpr (.inr ⟨rfl, hquote, hslash⟩)) ih
  | hidden others ih => exact .turn (quotedChar_eq_success.mpr (.inl rfl)) ih

theorem quoted_of_turns (h : Turns (quotedChar quote) s content r) :
    ∃ written, Quoted quote content written ∧ s = written ++ r := by
  induction h with
  | done => exact ⟨[], .nil, rfl⟩
  | turn first others ih =>
      obtain ⟨written, hquoted, rfl⟩ := ih
      obtain rfl | ⟨rfl, hquote, hslash⟩ := quotedChar_eq_success.mp first
      · exact ⟨_, .hidden hquoted, rfl⟩
      · exact ⟨_, .plain hquote hslash hquoted, rfl⟩

theorem Quoted.length_le (h : Quoted quote content written) : content.length ≤ written.length := by
  induction h with
  | nil => simp
  | plain hquote hslash others ih => simpa using ih
  | hidden others ih =>
      simp only [List.length_cons]
      omega

theorem quotation_eq_success :
    quotation s = .success e r ↔ ∃ quote content written,
      (quote = '\x27' ∨ quote = '\x22') ∧ Quoted quote content written ∧
        s = quote :: written ++ quote :: r ∧ e = .text (String.ofList content) := by
  simp only [quotation, bind_eq_success, orElse_eq_success, char_eq_success, refuses_char,
    expecting_eq_success, pure_eq_success]
  constructor
  · rintro ⟨quote, mid, hquote, content, rest, hcontent, -, r', ⟨rfl, -⟩, rfl, rfl⟩
    obtain ⟨written, hquoted, rfl⟩ := quoted_of_turns (turns_of_repeated hcontent)
    obtain ⟨rfl, rfl⟩ | ⟨-, rfl, rfl⟩ := hquote
    · exact ⟨_, content, written, .inl rfl, hquoted, rfl, rfl⟩
    · exact ⟨_, content, written, .inr rfl, hquoted, rfl, rfl⟩
  · rintro ⟨quote, content, written, hquote, hquoted, rfl, rfl⟩
    refine ⟨quote, written ++ quote :: r, ?_, content, quote :: r, ?_, quote, r, ⟨rfl, rfl⟩, rfl, rfl⟩
    · obtain rfl | rfl := hquote
      · exact .inl ⟨rfl, rfl⟩
      · exact .inr ⟨by simp, rfl, rfl⟩
    · refine (hquoted.turns (quote :: r)).repeated ?_ ?_
      · rw [gentle_quotedChar.refuses_iff]
        intro c rest h
        obtain h | ⟨h, hne, -⟩ := quotedChar_eq_success.mp h
        · obtain ⟨rfl, -⟩ := List.cons.inj h
          simp at hquote
        · exact hne (List.cons.inj h).1.symm
      · have hle := hquoted.length_le
        simp only [List.length_append]
        omega

theorem refuses_quotation (h : ∀ c ∈ s.head?, c ≠ '\x27' ∧ c ≠ '\x22') : quotation.Refuses s := by
  unfold quotation
  rw [refuses_bind, refuses_orElse, refuses_char, refuses_char]
  refine .inl ⟨?_, ?_⟩
  · exact fun hhead => (h _ hhead).1 rfl
  · exact fun hhead => (h _ hhead).2 rfl

/-! ## Concepts with tags -/

/-- Whether a text can name a concept or a tag. -/
def IsLabel (name : String) : Prop := name.toList ≠ [] ∧ ∀ c ∈ name.toList, isNameChar c = true

/-- The tag in brackets. -/
def tagPart : Rule String := do
  let _ ← char '['
  expecting .tag do
    let tag ← someWhere isNameChar
    let _ ← char ']'
    return String.ofList tag

/-- A concept and its tag, without arguments. -/
def parameter : Rule (String × Option String) := do
  let _ ← char '#'
  let tag ← optional? tagPart
  let name ← expecting .conceptName (someWhere isNameChar)
  return (String.ofList name, tag)

theorem someWhere_isNameChar {cs : List Char} :
    (someWhere isNameChar : Rule (List Char)) s = .success cs r ↔
      IsLabel (String.ofList cs) ∧ s = cs ++ r ∧ ∀ c ∈ r.head?, isNameChar c = false := by
  rw [someWhere_eq_success]
  unfold IsLabel
  rw [String.toList_ofList]
  constructor
  · rintro ⟨hne, hs, hcs, hr⟩
    exact ⟨⟨hne, hcs⟩, hs, hr⟩
  · rintro ⟨⟨hne, hcs⟩, hs, hr⟩
    exact ⟨hne, hs, hcs, hr⟩

theorem tagPart_eq_success {t : String} :
    tagPart s = .success t r ↔ IsLabel t ∧ s = '[' :: t.toList ++ ']' :: r := by
  simp only [tagPart, bind_eq_success, char_eq_success, expecting_eq_success,
    someWhere_isNameChar, pure_eq_success]
  constructor
  · rintro ⟨-, mid, ⟨rfl, -⟩, cs, rest, ⟨hcs, rfl, -⟩, -, r', ⟨rfl, -⟩, rfl, rfl⟩
    exact ⟨hcs, by simp⟩
  · rintro ⟨ht, rfl⟩
    refine ⟨'[', t.toList ++ ']' :: r, ⟨rfl, rfl⟩, t.toList, ']' :: r, ⟨?_, rfl, ?_⟩, ']', r,
      ⟨rfl, rfl⟩, String.ofList_toList, rfl⟩
    · rwa [String.ofList_toList]
    · simp only [List.head?_cons, Option.mem_some_iff, forall_eq']
      decide

theorem IsLabel.head_ne (h : IsLabel name) (hd : isNameChar d = false) :
    (name.toList ++ r).head? ≠ some d := by
  obtain ⟨hne, hall⟩ := h
  cases hcs : name.toList with
  | nil => exact absurd hcs hne
  | cons c cs =>
      have hc := hall c (by simp [hcs])
      simp only [List.cons_append, List.head?_cons, ne_eq, Option.some.injEq]
      rintro rfl
      exact absurd (hc.symm.trans hd) (by simp)

theorem parameter_eq_success :
    parameter s = .success (name, tag) r ↔
      IsLabel name ∧ (∀ t ∈ tag, IsLabel t) ∧ s = (Slot.param name tag).toText.toList ++ r ∧
        ∀ c ∈ r.head?, isNameChar c = false := by
  simp only [parameter, bind_eq_success, char_eq_success, optional?_eq_success,
    expecting_eq_success, someWhere_isNameChar, pure_eq_success, tagPart_eq_success,
    Prod.mk.injEq]
  constructor
  · rintro ⟨-, mid, ⟨rfl, -⟩, tag', rest, htag, cs, r', ⟨hname, rfl, hr⟩, ⟨rfl, rfl⟩, rfl⟩
    obtain ⟨t, rfl, ht, rfl⟩ | ⟨rfl, rfl, -⟩ := htag
    · exact ⟨hname, by simpa using ht, by simp [Slot.toText], hr⟩
    · exact ⟨hname, by simp, by simp [Slot.toText], hr⟩
  · rintro ⟨hname, htag, rfl, hr⟩
    have hname' : IsLabel (String.ofList name.toList) := by rwa [String.ofList_toList]
    cases tag with
    | none =>
        refine ⟨'#', name.toList ++ r, ⟨by simp [Slot.toText], rfl⟩, none, name.toList ++ r,
          .inr ⟨rfl, rfl, ?_⟩, name.toList, r, ⟨hname', rfl, hr⟩, ⟨String.ofList_toList, rfl⟩, rfl⟩
        unfold tagPart
        rw [refuses_bind, refuses_char]
        exact .inl (hname.head_ne (by decide))
    | some t =>
        exact ⟨'#', '[' :: t.toList ++ ']' :: (name.toList ++ r), ⟨by simp [Slot.toText], rfl⟩,
          some t, name.toList ++ r, .inl ⟨t, rfl, htag t rfl, rfl⟩, name.toList, r,
          ⟨hname', rfl, hr⟩, ⟨String.ofList_toList, rfl⟩, rfl⟩

/-- A concept without a tag is a parameter, or makes a value if arguments follow. -/
def untagged (inner : Calls) (name : String) : Rule Expr :=
  ifAhead (spaced (char '('))
    (do
      let args ← arguments inner
      return .construct name (args.map (·.2)))
    (return .slot (.param name none))

theorem hash_eq_success :
    hash inner s = .success e r ↔ ∃ name tag mid, parameter s = .success (name, tag) mid ∧
      ((∃ t, tag = some t ∧ e = .slot (.param name (some t)) ∧ mid = r) ∨
        tag = none ∧ untagged inner name mid = .success e r) := by
  simp only [hash, parameter, tagPart, bind_eq_success, pure_eq_success, Prod.mk.injEq]
  constructor
  · rintro ⟨c, mid, hc, tag, rest, htag, cs, r', hcs, h⟩
    refine ⟨String.ofList cs, tag, r', ⟨c, mid, hc, tag, rest, htag, cs, r', hcs, ⟨rfl, rfl⟩, rfl⟩, ?_⟩
    cases tag with
    | some t =>
        obtain ⟨rfl, rfl⟩ := pure_eq_success.mp h
        exact .inl ⟨t, rfl, rfl, rfl⟩
    | none => exact .inr ⟨rfl, h⟩
  · rintro ⟨name, tag, mid, ⟨c, mid', hc, tag', rest, htag, cs, r', hcs, ⟨rfl, rfl⟩, rfl⟩, h⟩
    refine ⟨c, mid', hc, tag', rest, htag, cs, r', hcs, ?_⟩
    obtain ⟨t, rfl, rfl, rfl⟩ | ⟨rfl, h⟩ := h
    · exact pure_eq_success.mpr ⟨rfl, rfl⟩
    · exact h

theorem refuses_hash (h : s.head? ≠ some '#') : (hash inner).Refuses s := by
  unfold hash
  rw [refuses_bind, refuses_char]
  exact .inl h

/-! ## Signs -/

/-- The signs of the language. -/
def marks : List String :=
  ["==", "!=", ">=", "<=", "**", "//", "=", ">", "<", "*", "/", "+", "-", "%", "@", "(", ")", ",",
    "."]

/-- The character that would make a longer sign of a sign. -/
def extension? (m : String) : Option Char :=
  if m ∈ ["=", ">", "<"] then some '='
  else if m = "*" then some '*'
  else if m = "/" then some '/'
  else none

end Grammar

open Grammar Credence.Parser
open Text (skipGap isGap isAlphabetic isNameChar skipGap_skipGap)

variable {s r s' r' z : List Char} {c : Char} {t t' : Token} {ts ts' : List Token} {m : String}

/-- A text begins with a token, behind which the rest stands. -/
def Token.Starts : Token → List Char → List Char → Prop
  | .number x, s, r => Grammar.number s = .success (.number x) r
  | .text v, s, r => quotation s = .success (.text v) r
  | .parameter c tag, s, r => Grammar.parameter s = .success (c, tag) r
  | .word w, s, r => nameChars s = .success w.toList r
  | .mark m, s, r => m ∈ marks ∧ s = m.toList ++ r ∧ ∀ c ∈ extension? m, r.head? ≠ some c

namespace Token

/-- The kinds of tokens, as numbers. -/
def kind : Token → Nat
  | .number _ => 0
  | .text _ => 1
  | .parameter _ _ => 2
  | .word _ => 3
  | .mark _ => 4

/-- The kind of the token that begins with a character. -/
def kindOf (c : Char) : Nat :=
  if Decimal.isDigit c then 0
  else if c = '\x27' ∨ c = '\x22' then 1
  else if c = '#' then 2
  else if isAlphabetic c ∨ c = '_' then 3
  else 4

theorem isAlphabetic_of_isDigit (hc : Decimal.isDigit c = true) : isAlphabetic c = false := by
  have hdigit : 48 ≤ c.val.toNat ∧ c.val.toNat ≤ 57 := by
    simp only [Decimal.isDigit, Bool.and_eq_true, decide_eq_true_eq, Char.le_def,
      UInt32.le_iff_toNat_le] at hc
    exact hc
  have hsmall : c.toNat < 0x80 := by
    show c.val.toNat < _
    omega
  unfold isAlphabetic
  rw [if_pos hsmall]
  show (decide ('A'.val ≤ c.val ∧ c.val ≤ 'Z'.val) ||
    (decide ('a'.val ≤ c.val) && decide (c.val ≤ 'z'.val))) = false
  simp only [Bool.or_eq_false_iff, Bool.and_eq_false_iff, decide_eq_false_iff_not,
    UInt32.le_iff_toNat_le]
  refine ⟨?_, .inl ?_⟩
  · rintro ⟨h, -⟩
    have hletter : 65 ≤ c.val.toNat := h
    omega
  · intro h
    have hletter : 97 ≤ c.val.toNat := h
    omega

theorem kindOf_of_isDigit (hc : Decimal.isDigit c = true) : kindOf c = 0 := if_pos hc

theorem kindOf_of_isAlphabetic (hc : isAlphabetic c = true ∨ c = '_') : kindOf c = 3 := by
  obtain hc | rfl := hc
  · have hdigit : ¬ Decimal.isDigit c = true := by
      intro h
      rw [isAlphabetic_of_isDigit h] at hc
      exact nomatch hc
    have hquote : ¬ (c = '\x27' ∨ c = '\x22') := by
      rintro (rfl | rfl) <;> exact absurd hc (by decide)
    have hhash : c ≠ '#' := by
      rintro rfl
      exact absurd hc (by decide)
    unfold kindOf
    rw [if_neg hdigit, if_neg hquote, if_neg hhash, if_pos (.inl hc)]
  · decide

theorem isGap_of_isAlphabetic (hc : isAlphabetic c = true ∨ c = '_') : isGap c = false := by
  obtain hc | rfl := hc
  · exact Text.isGap_eq_false_of (by decide) hc
  · decide

/-- A sign begins with a character that begins nothing else. -/
theorem head_of_mem_marks (hm : m ∈ marks) :
    ∃ c w, m.toList = c :: w ∧ kindOf c = 4 ∧ isGap c = false := by
  have hall : marks.all (fun m => m.toList.head?.any fun c => kindOf c = 4 && !isGap c) = true := by
    decide
  have hhead := List.all_eq_true.mp hall m hm
  cases hcs : m.toList with
  | nil =>
      rw [hcs] at hhead
      exact nomatch hhead
  | cons c w =>
      rw [hcs] at hhead
      exact ⟨c, w, rfl, by simpa using hhead⟩

/-- A token takes at least one character, and the first one tells its kind. -/
theorem Starts.head (h : t.Starts s r) :
    ∃ c w, s = c :: w ++ r ∧ kindOf c = t.kind ∧ isGap c = false := by
  cases t with
  | number x =>
      obtain ⟨ds, ⟨whole, hne, hdigits, hds⟩, rfl, -⟩ := literal_of_number h
      cases whole with
      | nil => exact absurd rfl hne
      | cons c cs =>
          have hc := hdigits c (by simp)
          obtain rfl | ⟨fraction, -, -, rfl⟩ := hds
          · exact ⟨c, cs, rfl, kindOf_of_isDigit hc, Text.isGap_of_isDigit hc⟩
          · exact ⟨c, cs ++ '.' :: fraction, rfl, kindOf_of_isDigit hc, Text.isGap_of_isDigit hc⟩
  | text v =>
      obtain ⟨quote, content, written, hquote, -, rfl, -⟩ := quotation_eq_success.mp h
      refine ⟨quote, written ++ [quote], by simp, ?_⟩
      obtain rfl | rfl := hquote
      · exact ⟨(by decide : kindOf '\x27' = 1), by decide⟩
      · exact ⟨(by decide : kindOf '\x22' = 1), by decide⟩
  | parameter name tag =>
      obtain ⟨-, -, rfl, -⟩ := parameter_eq_success.mp h
      have hkind : kindOf '#' = 2 ∧ isGap '#' = false := by decide
      cases tag with
      | none => exact ⟨'#', name.toList, by simp [Slot.toText], hkind⟩
      | some t => exact ⟨'#', '[' :: t.toList ++ ']' :: name.toList, by simp [Slot.toText], hkind⟩
  | word w =>
      obtain ⟨⟨c, rest, hw, hc, -⟩, rfl, -⟩ := nameChars_eq_success.mp h
      exact ⟨c, rest, by rw [hw], kindOf_of_isAlphabetic hc, isGap_of_isAlphabetic hc⟩
  | mark m =>
      obtain ⟨hm, rfl, -⟩ := h
      obtain ⟨c, w, hcw, hc⟩ := head_of_mem_marks hm
      exact ⟨c, w, by rw [hcw], hc⟩

theorem Starts.skipGap_eq (h : t.Starts s r) : skipGap s = s := by
  obtain ⟨c, w, rfl, -, hc⟩ := h.head
  exact Text.skipGap_cons hc _

theorem Starts.length_lt (h : t.Starts s r) : r.length < s.length := by
  obtain ⟨c, w, rfl, -, -⟩ := h.head
  simp only [List.length_append, List.length_cons]
  omega

theorem isNameChar_of_isDigit (hc : Decimal.isDigit c = true) : isNameChar c = true := by
  have hall : ∀ n < 58, Decimal.isDigit (Char.ofNat n) = true → isNameChar (Char.ofNat n) = true := by
    decide
  have hsmall : c.toNat ≤ 57 := by
    simp only [Decimal.isDigit, Bool.and_eq_true, decide_eq_true_eq, Char.le_def,
      UInt32.le_iff_toNat_le] at hc
    exact hc.2
  have hname := hall c.toNat (Nat.lt_succ_of_le hsmall)
  rw [Char.ofNat_toNat] at hname
  exact hname hc

theorem isNameChar_of_isAlphabetic (hc : isAlphabetic c = true ∨ c = '_') : isNameChar c = true := by
  obtain hc | rfl := hc
  · simp [isNameChar, Text.isAlphanumeric, hc]
  · decide

/-- What a name, a number or a concept with its tag consists of. -/
theorem Starts.exists_chars (h : t.Starts s r) (htext : t.kind ≠ 1) (hmark : t.kind ≠ 4) :
    ∃ w, s = w ++ r ∧ ∀ c ∈ w, isNameChar c = true ∨ c ∈ ['.', '#', '[', ']'] := by
  cases t with
  | number x =>
      obtain ⟨ds, ⟨whole, -, hwhole, hds⟩, rfl, -⟩ := literal_of_number h
      refine ⟨ds, rfl, ?_⟩
      obtain rfl | ⟨fraction, -, hfraction, rfl⟩ := hds
      · exact fun c hc => .inl (isNameChar_of_isDigit (hwhole c hc))
      · intro c hc
        obtain hc | hc := List.mem_append.mp hc
        · exact .inl (isNameChar_of_isDigit (hwhole c hc))
        · obtain rfl | hc := List.mem_cons.mp hc
          · exact .inr (by decide)
          · exact .inl (isNameChar_of_isDigit (hfraction c hc))
  | text v => exact absurd rfl htext
  | parameter name tag =>
      obtain ⟨hname, htag, rfl, -⟩ := parameter_eq_success.mp h
      refine ⟨_, rfl, ?_⟩
      have hlabel {label : String} (h : IsLabel label) :
          ∀ c ∈ label.toList, isNameChar c = true ∨ c ∈ ['.', '#', '[', ']'] :=
        fun c hc => .inl (h.2 c hc)
      cases tag with
      | none =>
          have htext : (Slot.param name none).toText.toList = '#' :: name.toList := by
            simp [Slot.toText]
          rw [htext]
          exact List.forall_mem_cons.mpr ⟨.inr (by decide), hlabel hname⟩
      | some tag =>
          have htext : (Slot.param name (some tag)).toText.toList =
              '#' :: '[' :: (tag.toList ++ ']' :: name.toList) := by simp [Slot.toText]
          rw [htext]
          refine List.forall_mem_cons.mpr ⟨.inr (by decide),
            List.forall_mem_cons.mpr ⟨.inr (by decide), ?_⟩⟩
          exact List.forall_mem_append.mpr ⟨hlabel (htag tag rfl),
            List.forall_mem_cons.mpr ⟨.inr (by decide), hlabel hname⟩⟩
  | word w =>
      obtain ⟨⟨c, rest, hw, hc, hrest⟩, rfl, -⟩ := nameChars_eq_success.mp h
      refine ⟨_, rfl, ?_⟩
      rw [hw]
      exact List.forall_mem_cons.mpr ⟨.inl (isNameChar_of_isAlphabetic hc),
        fun c hc => .inl (hrest c hc)⟩
  | mark m => exact absurd rfl hmark

/-- A sign that begins another one is followed by what would make it longer. -/
theorem eq_or_extends {m' : String} (hm : m ∈ marks) (hm' : m' ∈ marks)
    (h : m.toList <+: m'.toList) :
    m = m' ∨ ∃ c ∈ extension? m, m.toList ++ [c] <+: m'.toList := by
  have hall : ∀ m ∈ marks, ∀ m' ∈ marks, m.toList <+: m'.toList →
      m = m' ∨ (extension? m).any (fun c => m.toList ++ [c] <+: m'.toList) = true := by decide
  obtain heq | hextends := hall m hm m' hm' h
  · exact .inl heq
  · obtain ⟨c, hc, hlonger⟩ := (Option.any_eq_true _ _).mp hextends
    exact .inr ⟨c, hc, of_decide_eq_true hlonger⟩

theorem Starts.mark_unique {m' : String} (h : (mark m).Starts s r) (h' : (mark m').Starts s r')
    (hle : m.toList.length ≤ m'.toList.length) : m = m' := by
  obtain ⟨hm, hs, hext⟩ := h
  obtain ⟨hm', hs', -⟩ := h'
  have hprefix : m.toList <+: m'.toList :=
    List.prefix_of_prefix_length_le ⟨r, hs.symm⟩ ⟨r', hs'.symm⟩ hle
  obtain heq | ⟨c, hc, w, hw⟩ := eq_or_extends hm hm' hprefix
  · exact heq
  · have hr : r = c :: (w ++ r') := by
      have happend : m.toList ++ r = m.toList ++ c :: (w ++ r') := by
        rw [← hs, hs', ← hw]
        simp
      exact List.append_cancel_left happend
    exact absurd (by rw [hr]; rfl) (hext c hc)

/-- A text begins with one token only. -/
theorem Starts.unique (h : t.Starts s r) (h' : t'.Starts s r') : t = t' ∧ r = r' := by
  have hkind : t.kind = t'.kind := by
    obtain ⟨c, w, hs, hc, -⟩ := h.head
    obtain ⟨c', w', hs', hc', -⟩ := h'.head
    obtain ⟨rfl, -⟩ := List.cons.inj (hs.symm.trans hs')
    exact hc.symm.trans hc'
  cases t with
  | number x =>
      cases t' with
      | number x' =>
          obtain ⟨heq, rfl⟩ := Outcome.success.inj (h.symm.trans h')
          exact ⟨by rw [Expr.number.inj heq], rfl⟩
      | text _ | parameter _ _ | word _ | mark _ => exact nomatch hkind
  | text v =>
      cases t' with
      | text v' =>
          obtain ⟨heq, rfl⟩ := Outcome.success.inj (h.symm.trans h')
          exact ⟨by rw [Expr.text.inj heq], rfl⟩
      | number _ | parameter _ _ | word _ | mark _ => exact nomatch hkind
  | parameter name tag =>
      cases t' with
      | parameter name' tag' =>
          obtain ⟨heq, rfl⟩ := Outcome.success.inj (h.symm.trans h')
          obtain ⟨rfl, rfl⟩ := Prod.mk.inj heq
          exact ⟨rfl, rfl⟩
      | number _ | text _ | word _ | mark _ => exact nomatch hkind
  | word w =>
      cases t' with
      | word w' =>
          obtain ⟨heq, rfl⟩ := Outcome.success.inj (h.symm.trans h')
          exact ⟨by rw [String.toList_inj.mp heq], rfl⟩
      | number _ | text _ | parameter _ _ | mark _ => exact nomatch hkind
  | mark m =>
      cases t' with
      | mark m' =>
          have heq : m = m' := by
            obtain hle | hle := Nat.le_total m.toList.length m'.toList.length
            · exact h.mark_unique h' hle
            · exact (h'.mark_unique h hle).symm
          subst heq
          obtain ⟨-, hs, -⟩ := h
          obtain ⟨-, hs', -⟩ := h'
          exact ⟨rfl, List.append_cancel_left (hs.symm.trans hs')⟩
      | number _ | text _ | parameter _ _ | word _ => exact nomatch hkind

end Token

/-! ## Rows of tokens -/

/-- A text consists of tokens with gaps before them, up to a rest. -/
inductive Scans : List Char → List Token → List Char → Prop
  | done {s r : List Char} (h : skipGap s = skipGap r) : Scans s [] r
  | token {s mid r : List Char} {t : Token} {ts : List Token} (first : t.Starts (skipGap s) mid)
      (others : Scans mid ts r) : Scans s (t :: ts) r

namespace Scans

theorem refl (s : List Char) : Scans s [] s := .done rfl

theorem of_skipGap_eq (h : Scans s ts r) (hs : skipGap s = skipGap s') : Scans s' ts r := by
  cases h with
  | done h => exact .done (hs ▸ h)
  | token first others => exact .token (hs ▸ first) others

theorem to_skipGap_eq (h : Scans s ts r) (hr : skipGap r = skipGap r') : Scans s ts r' := by
  induction h with
  | done h => exact .done (h.trans hr)
  | token first others ih => exact .token first (ih hr)

theorem skipGap_left (h : Scans s ts r) : Scans (skipGap s) ts r :=
  h.of_skipGap_eq (skipGap_skipGap s).symm

theorem skipGap_right (h : Scans s ts r) : Scans s ts (skipGap r) :=
  h.to_skipGap_eq (skipGap_skipGap r).symm

theorem of_skipGap (h : Scans (skipGap s) ts r) : Scans s ts r :=
  h.of_skipGap_eq (skipGap_skipGap s)

theorem append (h : Scans s ts r) (h' : Scans r ts' z) : Scans s (ts ++ ts') z := by
  induction h with
  | done h => exact h'.of_skipGap_eq h.symm
  | token first others ih => exact .token first (ih h')

theorem cons_iff : Scans s (t :: ts) z ↔ ∃ r, t.Starts (skipGap s) r ∧ Scans r ts z := by
  constructor
  · intro h
    cases h with
    | token first others => exact ⟨_, first, others⟩
  · rintro ⟨r, first, others⟩
    exact .token first others

/-- A text has at least one character for each token. -/
theorem length_le (h : Scans s ts r) : ts.length ≤ s.length := by
  induction h with
  | done h => simp
  | @token s mid r t ts first others ih =>
      have hlt := first.length_lt
      have hle := Text.length_skipGap_le s
      simp only [List.length_cons]
      omega

/-- What a text begins with is what its tokens begin with. -/
theorem split (h : Scans s ts []) (h' : Scans s ts' r) :
    ∃ rest, ts = ts' ++ rest ∧ Scans r rest [] := by
  induction h' generalizing ts with
  | done h' => exact ⟨ts, rfl, h.of_skipGap_eq h'⟩
  | token first others ih =>
      cases h with
      | done h =>
          rw [h] at first
          exact absurd first.length_lt (by simp [skipGap])
      | token first' others' =>
          obtain ⟨rfl, rfl⟩ := first.unique first'
          obtain ⟨rest, rfl, hrest⟩ := ih others'
          exact ⟨rest, rfl, hrest⟩

/-- A text comes apart in one way only. -/
theorem unique (h : Scans s ts []) (h' : Scans s ts' []) : ts = ts' := by
  obtain ⟨rest, rfl, hrest⟩ := h.split h'
  cases hrest with
  | done _ => simp
  | token first _ => exact absurd first.length_lt (by simp [skipGap])

end Scans

/-! ## Parsers of single tokens -/

/-- One character with gaps around it. -/
abbrev spacedChar (c : Char) : Rule Char := spaced (char c)

/-- A parser takes one sign and nothing else. -/
structure TakesMark {α : Type} (p : Rule α) (m : String) : Prop where
  gentle : Gentle p
  success_iff : ∀ s r, (∃ a, p s = .success a r) ↔ (Token.mark m).Starts s r

namespace TakesMark

variable {α : Type} {p : Rule α} {a : α}

theorem scans (hp : TakesMark p m) (h : spaced p s = .success a r) : Scans s [.mark m] r := by
  obtain ⟨rest, ha, rfl⟩ := spaced_eq_success.mp h
  exact .token ((hp.success_iff _ _).mp ⟨a, ha⟩) (.done (skipGap_skipGap rest).symm)

theorem takes (hp : TakesMark p m) (h : Scans s (.mark m :: ts) z) :
    ∃ a r, spaced p s = .success a r ∧ Scans r ts z := by
  obtain ⟨r, first, others⟩ := Scans.cons_iff.mp h
  obtain ⟨a, ha⟩ := (hp.success_iff _ _).mpr first
  exact ⟨a, skipGap r, spaced_eq_success.mpr ⟨r, ha, rfl⟩, others.skipGap_left⟩

theorem refuses (hp : TakesMark p m) (h : Scans s ts []) (hts : ∀ rest, ts ≠ .mark m :: rest) :
    (spaced p).Refuses s := by
  rw [hp.gentle.spaced.refuses_iff]
  intro a r ha
  obtain ⟨rest, hrest, -⟩ := h.split (hp.scans ha)
  exact hts rest hrest

end TakesMark

theorem takesMark_char (hm : m ∈ marks) (hc : m.toList = [c]) (hext : extension? m = none) :
    TakesMark (char c) m := by
  refine ⟨gentle_char, fun s r => ?_⟩
  simp [Token.Starts, char_eq_success, hm, hc, hext]

theorem takesMark_exactly {cs : List Char} (hm : m ∈ marks) (hcs : m.toList = cs)
    (hext : extension? m = none) : TakesMark (exactly cs) m := by
  refine ⟨gentle_exactly, fun s r => ?_⟩
  simp [Token.Starts, exactly_eq_success, hm, hcs, hext]

theorem takesMark_loneEquals : TakesMark loneEquals "=" := by
  refine ⟨gentle_char.bind fun _ => gentle_notAhead, fun s r => ?_⟩
  have hext : extension? "=" = some '=' := by decide
  have hm : "=" ∈ marks := by decide
  simp only [loneEquals, bind_eq_success, char_eq_success, notAhead_eq_success,
    gentle_char.accepts_eq_false_iff, refuses_char, Token.Starts, hm, hext, true_and,
    Option.mem_some_iff, forall_eq']
  constructor
  · rintro ⟨-, -, mid, ⟨rfl, -⟩, rfl, hr⟩
    exact ⟨rfl, hr⟩
  · rintro ⟨rfl, hr⟩
    exact ⟨(), '=', r, ⟨rfl, rfl⟩, rfl, hr⟩

namespace Grammar

/-- Whether a text can name a relation, a property or a method. -/
def IsName (name : String) : Prop := IsWord name.toList ∧ name.toList ∉ reserved

end Grammar

variable {name : String}

theorem scans_of_identifier (h : spaced identifier s = .success name r) :
    Scans s [.word name] r ∧ IsName name := by
  obtain ⟨rest, hname, rfl⟩ := spaced_eq_success.mp h
  obtain ⟨hword, hreserved⟩ := identifier_eq_success.mp hname
  exact ⟨.token hword (.done (skipGap_skipGap rest).symm), (nameChars_eq_success.mp hword).1,
    hreserved⟩

theorem Scans.identifier (h : Scans s (.word name :: ts) z) (hname : name.toList ∉ reserved) :
    ∃ r, spaced identifier s = .success name r ∧ Scans r ts z := by
  obtain ⟨r, first, others⟩ := Scans.cons_iff.mp h
  exact ⟨skipGap r, spaced_eq_success.mpr ⟨r, identifier_eq_success.mpr ⟨first, hname⟩, rfl⟩,
    others.skipGap_left⟩

end Credence.Expr
