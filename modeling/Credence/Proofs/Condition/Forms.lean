import Credence.Proofs.Condition.Pieces
import Credence.Proofs.Formula.Soundness

/-!
# The two forms of a formula

The last argument of an `f` may be a quotation or stand as it is.  Where it stands as it is, it is
read twice: as a condition, which is thrown away, and as a formula.  What is read as a formula is
the text of the argument without the blanks around it, or, if the condition is a text, that text.
So a letter in parentheses is read without them, and nothing else of the condition matters.

If the argument has no quote in it, then a quotation of it is the same formula.  The blanks around
it are gaps, since no other blank stands in a condition outside of quotations, and neither gaps nor
parentheses change a formula (`ReadAs.formula_eq`).  Nor does a backslash stand there, which could
hide a character of the quotation.
-/

namespace Credence.Expr

open Grammar Credence.Parser
open Text (IsGap skipGap isGap isBlank isNameChar skipGap_skipGap)

variable {k : Nat} {e : Expr} {s r : List Char} {t : Token} {ts us : List Token} {body : Formula}
  {pieces : List (List Char)} {x : List Char × Expr}

/-! ## Texts without quotes -/

/-- No quote stands in a text. -/
def Unquoted (s : List Char) : Prop := ∀ c ∈ s, c ≠ '\x27' ∧ c ≠ '\x22'

instance (s : List Char) : Decidable (Unquoted s) :=
  decidable_of_iff (s.all (fun c => c ≠ '\x27' ∧ c ≠ '\x22') = true) (by simp [Unquoted])

theorem unquoted_of_isGap {gap : List Char} (hgap : IsGap gap) : Unquoted gap := fun c hc =>
  ⟨Text.ne_of_isGap (hgap c hc) (by decide), Text.ne_of_isGap (hgap c hc) (by decide)⟩

theorem Unquoted.append {s' : List Char} (h : Unquoted s) (h' : Unquoted s') : Unquoted (s ++ s') :=
  List.forall_mem_append.mpr ⟨h, h'⟩

/-- The characters of a text that are no part of a name and no gap. -/
def signChars : List Char :=
  ['=', '!', '>', '<', '*', '/', '+', '-', '%', '@', '(', ')', ',', '.', '#', '[', ']']

theorem Token.Starts.exists_plain (h : t.Starts s r) (htext : t.kind ≠ 1) :
    ∃ w, s = w ++ r ∧ ∀ c ∈ w, isNameChar c = true ∨ c ∈ signChars := by
  by_cases hmark : t.kind = 4
  · cases t with
    | mark m =>
        obtain ⟨hm, rfl, -⟩ := h
        have hall : marks.all (fun m => m.toList.all fun c => c ∈ signChars) = true := by decide
        refine ⟨m.toList, rfl, fun c hc => .inr ?_⟩
        exact of_decide_eq_true (List.all_eq_true.mp (List.all_eq_true.mp hall m hm) c hc)
    | number _ | text _ | parameter _ _ | word _ => cases hmark
  · obtain ⟨w, hs, hw⟩ := h.exists_chars htext hmark
    have hall : ∀ c ∈ ['.', '#', '[', ']'], c ∈ signChars := by simp [signChars]
    exact ⟨w, hs, fun c hc => (hw c hc).imp_right (hall c)⟩

theorem Token.Starts.kind_ne_one (h : t.Starts s r) (hs : Unquoted s) : t.kind ≠ 1 := by
  cases t with
  | text v =>
      obtain ⟨quote, content, written, hquote, -, rfl, -⟩ := quotation_eq_success.mp h
      obtain ⟨hsingle, hdouble⟩ := hs quote (by simp)
      exact absurd hquote (by simp [hsingle, hdouble])
  | number _ | parameter _ _ | word _ | mark _ =>
      intro hkind
      cases hkind

/-- What stands in the tokens of a text without quotes. -/
theorem Scans.plain (h : Scans s ts []) (hs : Unquoted s) :
    ∀ c ∈ s, isGap c = true ∨ isNameChar c = true ∨ c ∈ signChars := by
  generalize hr : [] = r at h
  induction h with
  | done h =>
      subst hr
      exact fun c hc => .inl (Text.skipGap_eq_nil_iff.mp h c hc)
  | @token s mid r t ts first others ih =>
      obtain ⟨gap, hgap, heq⟩ := Text.exists_isGap s
      have hskip : Unquoted (skipGap s) := fun c hc => hs c (mem_of_mem_skipGap hc)
      obtain ⟨w, hw, hplain⟩ := first.exists_plain (first.kind_ne_one hskip)
      have hmid : Unquoted mid := fun c hc => hskip c (first.mem hc)
      rw [heq, hw]
      intro c hc
      obtain hc | hc := List.mem_append.mp hc
      · exact .inl (hgap c hc)
      · obtain hc | hc := List.mem_append.mp hc
        · exact .inr (hplain c hc)
        · exact ih hmid hr c hc

/-- Outside of quotations a condition has no blank but gaps, and no backslash. -/
theorem IsCondition.isGap_of_isBlank (h : IsCondition s) (hs : Unquoted s) :
    ∀ c ∈ s, (isBlank c = true → isGap c = true) ∧ c ≠ '\\' := by
  obtain ⟨e, h⟩ := h
  obtain ⟨ts, -, hscans⟩ := spells_of_condition (parse_ofList_eq_ok.mp h)
  have hall : signChars.all (fun c => !isBlank c && c != '\\') = true := by decide
  intro c hc
  obtain hgap | hname | hsign := hscans.plain hs c hc
  · exact ⟨fun _ => hgap, Text.ne_of_isGap hgap (by decide)⟩
  · refine ⟨fun hblank => ?_, ?_⟩
    · rw [Text.isNameChar_of_isBlank hblank] at hname
      cases hname
    · rintro rfl
      exact absurd hname (by decide)
  · have hplain := List.all_eq_true.mp hall c hsign
    simp only [Bool.and_eq_true, Bool.not_eq_true', bne_iff_ne] at hplain
    exact ⟨fun hblank => absurd hblank (by simp [hplain.1]), hplain.2⟩

/-! ## What is read as a formula -/

theorem Scans.exists_of_append (h : Scans s (ts ++ us) r) :
    ∃ mid, Scans s ts mid ∧ Scans mid us r := by
  induction ts generalizing s with
  | nil => exact ⟨s, .refl s, h⟩
  | cons t ts ih =>
      obtain ⟨mid, first, others⟩ := cons_iff.mp h
      obtain ⟨mid', hts, hus⟩ := ih others
      exact ⟨mid', .token first hts, hus⟩

/-- A condition without quotes that is a text is a word, perhaps in parentheses.  If the word is a
formula, then what stands there is the same formula. -/
theorem Spells.exists_formula {v : String} (h : Spells true k (.text v) ts) (hscans : Scans s ts r)
    (hs : Unquoted s) (hbody : Formula.parse v.toList = .ok body) :
    ∃ w rest, s = w ++ rest ∧ skipGap rest = skipGap r ∧ Formula.parse w = .ok body := by
  induction hlength : ts.length using Nat.strongRecOn generalizing k ts s r with
  | ind length ih =>
    cases h with
    | text =>
        obtain ⟨mid, first, -⟩ := Scans.cons_iff.mp hscans
        exact absurd rfl (first.kind_ne_one fun c hc => hs c (mem_of_mem_skipGap hc))
    | bare hloose hname =>
        obtain ⟨mid, first, hrest⟩ := Scans.cons_iff.mp hscans
        obtain ⟨-, hskip, -⟩ := nameChars_eq_success.mp first
        obtain ⟨gap, hgap, heq⟩ := Text.exists_isGap s
        cases hrest with
        | done hmid =>
            refine ⟨gap ++ v.toList, mid, ?_, hmid, ?_⟩
            · rw [List.append_assoc, ← hskip]
              exact heq
            · have hparse := (Formula.parse_gaps_iff hgap Text.isGap_nil).mpr hbody
              rwa [List.append_nil] at hparse
    | @enclosed k e us inner =>
        obtain ⟨mid, opening, hscans⟩ := Scans.cons_iff.mp hscans
        obtain ⟨mid₁, hus, hclosing⟩ := Scans.exists_of_append hscans
        obtain ⟨mid₂, closing, hrest⟩ := Scans.cons_iff.mp hclosing
        have hmid : Unquoted mid := fun c hc => hs c (mem_of_mem_skipGap (opening.mem hc))
        have hlt : us.length < length := by
          simp only [List.length_append, List.length_cons] at hlength
          omega
        obtain ⟨w, rest, rfl, hskip, hparse⟩ := ih us.length hlt inner hus hmid rfl
        obtain ⟨gap, hgap, heq⟩ := Text.exists_isGap s
        obtain ⟨gap', hgap', heq'⟩ := Text.exists_isGap rest
        have hopening : skipGap s = '(' :: (w ++ rest) := opening.2.1
        have hclosed : skipGap rest = ')' :: mid₂ := hskip.trans closing.2.1
        cases hrest with
        | done hmid₂ =>
            have hinside := (Formula.parse_gaps_iff Text.isGap_nil hgap').mpr hparse
            have hparens := (Formula.parse_gaps_iff hgap Text.isGap_nil).mpr
              (Formula.parse_enclosed hinside)
            refine ⟨_, mid₂, ?_, hmid₂, hparens⟩
            rw [heq, hopening, heq', hclosed]
            simp

/-- The text of an argument without quotes is the formula that is made of the argument. -/
theorem ReadAs.formula_eq (h : ReadAs s x) (hs : Unquoted s)
    (hbody : Formula.parse (sourceOf x.1 x.2) = .ok body) : Formula.parse s = .ok body := by
  obtain ⟨source, last⟩ := x
  by_cases htext : ∃ v, last = .text v
  · obtain ⟨v, rfl⟩ := htext
    obtain ⟨ts, hts, hscans⟩ := spells_of_condition (parse_ofList_eq_ok.mp h.tree)
    obtain ⟨w, rest, rfl, hrest, hparse⟩ := hts.exists_formula hscans hs hbody
    have hafter : IsGap rest := Text.skipGap_eq_nil_iff.mp hrest
    exact (Formula.parse_gaps_iff Text.isGap_nil hafter).mpr hparse
  · have hsource : sourceOf source last = Text.trimChars source := by
      cases last with
      | text v => exact absurd ⟨v, rfl⟩ htext
      | _ => rfl
    obtain ⟨before, after, hbefore, hafter, rfl⟩ := h.source
    have hblank : ∀ c ∈ source, isBlank c = true → isGap c = true := fun c hc =>
      (IsCondition.isGap_of_isBlank ⟨last, h.tree⟩ hs c (by simp [hc])).1
    obtain ⟨lead, trail, hlead, htrail, heq⟩ := Text.exists_isGap_trimChars hblank
    rw [hsource] at hbody
    have hformula := (Formula.parse_gaps_iff hlead htrail).mpr hbody
    rw [← heq] at hformula
    exact (Formula.parse_gaps_iff hbefore hafter).mpr hformula

/-! ## Quotations of formulas -/

/-- A text in double quotes. -/
def inQuotes (s : List Char) : List Char := '\x22' :: (s ++ ['\x22'])

/-- Without a quote and a backslash a text is quoted as it is. -/
theorem parse_inQuotes {lead trail : List Char} (hlead : IsGap lead) (htrail : IsGap trail)
    (hs : Unquoted s) (hslash : ∀ c ∈ s, c ≠ '\\') :
    parse (String.ofList (lead ++ inQuotes s ++ trail)) = .ok (.text (String.ofList s)) := by
  have hquotation : quotation (inQuotes s ++ trail) = .success (.text (String.ofList s)) trail := by
    refine quotation_eq_success.mpr ⟨'\x22', s, s, .inr rfl, ?_, ?_, rfl⟩
    · exact quoted_self fun c hc => ⟨(hs c hc).2, hslash c hc⟩
    · simp [inQuotes]
  have hskip : skipGap (lead ++ inQuotes s ++ trail) = inQuotes s ++ trail := by
    rw [List.append_assoc, Text.skipGap_append hlead]
    exact Text.skipGap_cons (by decide) _
  have hscans : Scans (lead ++ inQuotes s ++ trail) [.text (String.ofList s)] [] := by
    refine .token ?_ (.done (Text.skipGap_eq_nil_iff.mpr htrail))
    rw [hskip]
    exact hquotation
  rw [← String.toList_ofList (l := lead ++ inQuotes s ++ trail)] at hscans
  exact parse_of_spells hscans .text

/-! ## Calls of `f` -/

/-- A call of `f` around its last argument: the arguments before it, and all the gaps. -/
structure CallFrame extends CallGaps where
  /-- The arguments before the last one, as they are written. -/
  args : List (List Char)
  /-- Before the last argument. -/
  lead : List Char
  /-- Behind the last argument. -/
  trail : List Char
  isGap_lead : IsGap lead
  isGap_trail : IsGap trail
  isCondition_args : ∀ a ∈ args, IsCondition a

/-- The last argument with the gaps around it. -/
def CallFrame.last (frame : CallFrame) (s : List Char) : List Char := frame.lead ++ s ++ frame.trail

/-- The call with a text as its last argument. -/
def CallFrame.call (frame : CallFrame) (s : List Char) : String :=
  frame.text "f" (frame.args ++ [frame.last s])

/-- A formula that does not stand in parentheses is a call of `f`. -/
theorem exists_frame {values : List Expr} {source : String}
    (h : parse (String.ofList s) = .ok (.formula values body source))
    (hhead : (skipGap s).head? ≠ some '(') :
    ∃ (frame : CallFrame) (last : List Char), String.ofList s = frame.call last ∧
      IsCondition (frame.last last) := by
  obtain ⟨mid, hstarts⟩ : ∃ mid, (Token.word "f").Starts (skipGap s) mid := by
    obtain ⟨ts, hts, hscans⟩ := spells_of_condition (parse_ofList_eq_ok.mp h)
    cases hts with
    | enclosed inner =>
        obtain ⟨mid, opening, -⟩ := Scans.cons_iff.mp hscans
        exact absurd (congrArg List.head? opening.2.1) hhead
    | formula hbody hvars hargs hlast hsource =>
        obtain ⟨mid, hstarts, -⟩ := Scans.cons_iff.mp hscans
        exact ⟨mid, hstarts⟩
  have hshort := hstarts.length_lt
  have hle := Text.length_skipGap_le s
  obtain ⟨m, hm⟩ : ∃ m, s.length = m + 1 := Nat.exists_eq_succ_of_ne_zero (by omega)
  obtain ⟨gap, hwhole, hgap⟩ := (parse_ofList_iff (n := m + 1) hm.le).mp h
  have hminus : (spacedChar '-').Refuses (skipGap s) := by
    rw [refuses_spaced, skipGap_skipGap]
    exact refuses_char_of_kind hstarts (by simp [Token.kind]; decide)
  obtain ⟨first, mid', hatom, heq⟩ := (widens_calls (m + 1) hminus).begins hwhole
  obtain ⟨rfl, rfl⟩ := heq rfl
  rw [← skipGap_skipGap] at hstarts
  obtain ⟨rest, hword, rfl⟩ := (atom_eq_success_of_word hstarts).mp hatom
  obtain ⟨name, mid', hname, ⟨-, xs, hxs, hcall⟩ | ⟨-, -, htext, -⟩⟩ := word_eq_success.mp hword
  · obtain ⟨hnamed, rfl⟩ := hstarts.unique (functionName_eq_success.mp hname).1
    obtain rfl := Token.word.inj hnamed
    have hsome : xs ≠ [] := by
      obtain ⟨ys, chars, last, -, rfl, -⟩ := exists_of_formulaOf (show formulaOf xs = _ from hcall)
      simp
    rw [skipGap_skipGap] at hstarts
    obtain ⟨between, pieces, after, hbetween, hne, hpieces, rfl, rfl⟩ :=
      exists_pieces_of_arguments hxs hsome (by omega)
    have hafter : IsGap after := by
      rw [skipGap_skipGap] at hgap
      have hnil := Text.skipGap_eq_nil_iff.mpr hgap
      rw [skipGap_skipGap] at hnil
      exact Text.skipGap_eq_nil_iff.mp hnil
    obtain ⟨args, last, rfl⟩ := (List.eq_nil_or_concat' pieces).resolve_left hne
    obtain ⟨hargs, hlast⟩ := List.forall_mem_append.mp hpieces
    obtain ⟨before, hbefore, hs⟩ := Text.exists_isGap s
    obtain ⟨-, hskip, -⟩ := nameChars_eq_success.mp hstarts
    refine ⟨⟨⟨before, between, after, hbefore, hbetween, hafter⟩, args, [], [], Text.isGap_nil,
      Text.isGap_nil, hargs⟩, last, ?_, ?_⟩
    · rw [hs, hskip]
      simp [CallFrame.call, CallFrame.last, CallGaps.text, CallGaps.chars]
    · simpa [CallFrame.last] using hlast
  · cases htext

/-! ## Both forms -/

section

variable {xs ys : List (List Char × Expr)}

theorem forall₂_trees (h : List.Forall₂ ReadAs pieces xs) :
    List.Forall₂ (fun a v => parse (String.ofList a) = .ok v) pieces (xs.map (·.2)) :=
  List.forall₂_map_right_iff.mpr (h.imp fun _ _ hx => hx.tree)

/-- Arguments are read in one way only. -/
theorem map_trees_eq (hxs : List.Forall₂ ReadAs pieces xs) (hys : List.Forall₂ ReadAs pieces ys) :
    xs.map (·.2) = ys.map (·.2) := by
  refine List.right_unique_forall₂' (fun a v v' hv hv' => ?_) (forall₂_trees hxs)
    (forall₂_trees hys)
  exact Except.ok.inj (hv.symm.trans hv')

theorem forall₂_concat {piece : List Char} :
    List.Forall₂ ReadAs (pieces ++ [piece]) (xs ++ [x]) ↔
      List.Forall₂ ReadAs pieces xs ∧ ReadAs piece x := by
  rw [← List.forall₂_reverse_iff]
  simp [List.forall₂_reverse_iff, and_comm]

end

/-- Where the last argument is read as a formula, its quotation is. -/
theorem CallFrame.parse_call_inQuotes (frame : CallFrame) (hlast : IsCondition (frame.last s))
    (hs : Unquoted s) (h : parse (frame.call s) = .ok e) :
    ∃ values body source, e = .formula values body source ∧
      List.Forall₂ (fun a v => parse (String.ofList a) = .ok v) frame.args values ∧
      parse (frame.call (inQuotes s)) = .ok (.formula values body (String.ofList s)) := by
  have hunquoted : Unquoted (frame.last s) :=
    ((unquoted_of_isGap frame.isGap_lead).append hs).append (unquoted_of_isGap frame.isGap_trail)
  have hslash : ∀ c ∈ s, c ≠ '\\' := fun c hc =>
    (hlast.isGap_of_isBlank hunquoted c (by simp [CallFrame.last, hc])).2
  have hquotation :
      parse (String.ofList (frame.last (inQuotes s))) = .ok (.text (String.ofList s)) :=
    parse_inQuotes frame.isGap_lead frame.isGap_trail hs hslash
  have hname : IsWord "f".toList := isWord_iff.mp (by decide)
  have hreserved : "f" = "is" ∨ "f".toList ∉ reserved := .inr (by decide)
  obtain ⟨xs, hxs, hiff⟩ := frame.exists_parse_text hname hreserved (by simp)
    (List.forall_mem_append.mpr ⟨frame.isCondition_args, List.forall_mem_singleton.mpr hlast⟩)
  obtain ⟨xs', hxs', hiff'⟩ := frame.exists_parse_text hname hreserved (by simp)
    (List.forall_mem_append.mpr ⟨frame.isCondition_args,
      List.forall_mem_singleton.mpr ⟨_, hquotation⟩⟩)
  obtain ⟨ys, source, last, body, rfl, hbody, hvars, rfl⟩ :=
    exists_of_formulaOf (show formulaOf xs = .ok e from (hiff e).mp h)
  obtain ⟨hys, hread⟩ := forall₂_concat.mp hxs
  have hformula : Formula.parse s = .ok body :=
    (Formula.parse_gaps_iff frame.isGap_lead frame.isGap_trail).mp
      (hread.formula_eq hunquoted hbody)
  have hsome : xs' ≠ [] := by
    rintro rfl
    exact absurd hxs'.length_eq (by simp)
  obtain ⟨ys', x', rfl⟩ := (List.eq_nil_or_concat' xs').resolve_left hsome
  obtain ⟨hys', hread'⟩ := forall₂_concat.mp hxs'
  have htext : x'.2 = .text (String.ofList s) := Except.ok.inj (hread'.tree.symm.trans hquotation)
  refine ⟨ys.map (·.2), body, _, rfl, forall₂_trees hys, (hiff' _).mpr (call_f ?_ ?_ hvars)⟩
  · rw [List.map_append, List.map_singleton, htext, map_trees_eq hys' hys]
  · rwa [String.toList_ofList]

/-- The two forms of `f` agree.  An accepted formula that does not stand in parentheses is a call
whose arguments are conditions, and for every such call, however it is taken apart: if the text of
the last argument has no quote in it, then the call with a quotation of this text is accepted as
well, with the same arguments and the same formula. -/
theorem quoted_form_agrees {text : String} (h : parse text = .ok e) :
    ((∃ values body source, e = .formula values body source) →
      (skipGap text.toList).head? ≠ some '(' →
        ∃ (frame : CallFrame) (last : List Char), text = frame.call last ∧
          IsCondition (frame.last last)) ∧
    ∀ (frame : CallFrame) (last : List Char), text = frame.call last →
      IsCondition (frame.last last) → Unquoted last →
        ∃ values body source, e = .formula values body source ∧
          List.Forall₂ (fun a v => parse (String.ofList a) = .ok v) frame.args values ∧
          parse (frame.call (inQuotes last)) = .ok (.formula values body (String.ofList last)) := by
  constructor
  · rintro ⟨values, body, source, rfl⟩ hhead
    rw [← String.ofList_toList (s := text)] at h
    obtain ⟨frame, last, heq, hlast⟩ := exists_frame h hhead
    exact ⟨frame, last, String.ofList_toList.symm.trans heq, hlast⟩
  · rintro frame last rfl hlast hs
    exact frame.parse_call_inQuotes hlast hs h

/-- A call with the age of the domain, and gaps around its last argument. -/
def ageFrame : CallFrame where
  before := []
  between := []
  after := []
  args := ["%.age".toList]
  lead := [' ']
  trail := [' ']
  isGap_before := by decide
  isGap_between := by decide
  isGap_after := by decide
  isGap_lead := by decide
  isGap_trail := by decide
  isCondition_args := by decide +kernel

/-- A letter in parentheses is a text as a condition. -/
theorem quoted_form_agrees_age :
    ∃ values body source, parse "f(%.age, (x) )" = .ok (.formula values body source) ∧
      parse "f(%.age, \"(x)\" )" = .ok (.formula values body "(x)") := by
  have hplain : "f(%.age, (x) )" = ageFrame.call ['(', 'x', ')'] := by decide +kernel
  have hquoted : "f(%.age, \"(x)\" )" = ageFrame.call (inQuotes ['(', 'x', ')']) := by
    decide +kernel
  have hlast : IsCondition (ageFrame.last ['(', 'x', ')']) := by decide +kernel
  have hunquoted : Unquoted ['(', 'x', ')'] := by decide
  obtain ⟨e, he⟩ : IsCondition "f(%.age, (x) )".toList := by decide +kernel
  rw [String.ofList_toList] at he
  obtain ⟨values, body, source, rfl, -, hparse⟩ :=
    (quoted_form_agrees he).2 ageFrame _ hplain hlast hunquoted
  rw [← hquoted] at hparse
  exact ⟨values, body, source, he, hparse⟩

end Credence.Expr
