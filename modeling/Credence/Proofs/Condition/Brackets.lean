import Credence.Proofs.Condition.Spelling

/-!
# Parentheses of what is written

The count of parentheses runs over characters, and quotations do not count.  Taken token by token it
only sees the two brackets, since a quotation leaves the count as it was and no other token has a
bracket in it.  What is written by the rules closes each parenthesis that it opens, so it passes the
count.
-/

namespace Credence.Expr

open Grammar
open Text (skipGap isGap isNameChar)

variable {loose : Bool} {k d d' : Nat} {e : Expr} {args : List Expr} {s r w : List Char} {c : Char}
  {t : Token} {ts us : List Token} {b b' : Brackets}

/-! ## The count as a fold -/

theorem scan_eq_ok {offset : Nat} (h : s.foldlM Brackets.step? b = some b') (hb : b'.depth = 0) :
    b.scan offset s = .ok () := by
  induction s generalizing b offset with
  | nil =>
      obtain rfl := Option.some.inj h
      simp [Brackets.scan, hb]
  | cons c s ih =>
      rw [List.foldlM_cons] at h
      cases hstep : b.step? c with
      | none => simp [hstep] at h
      | some b₁ =>
          rw [hstep] at h
          simp only [Brackets.scan, hstep]
          exact ih h

/-- A character that neither opens or closes a quotation nor is a parenthesis. -/
def Uncounted (c : Char) : Prop := c ≠ '\x27' ∧ c ≠ '\x22' ∧ c ≠ '(' ∧ c ≠ ')'

instance (c : Char) : Decidable (Uncounted c) := inferInstanceAs (Decidable (_ ∧ _))

theorem step?_of_uncounted (hc : Uncounted c) :
    Brackets.step? { depth := d } c = some { depth := d } := by
  obtain ⟨h₁, h₂, h₃, h₄⟩ := hc
  simp [Brackets.step?, h₁, h₂, h₃, h₄]

theorem foldlM_of_uncounted (hw : ∀ c ∈ w, Uncounted c) :
    w.foldlM Brackets.step? { depth := d } = some { depth := d } := by
  induction w with
  | nil => rfl
  | cons c w ih =>
      obtain ⟨hc, hw⟩ := List.forall_mem_cons.mp hw
      rw [List.foldlM_cons, step?_of_uncounted hc]
      exact ih hw

theorem uncounted_of_isNameChar (hc : isNameChar c = true) : Uncounted c := by
  refine ⟨?_, ?_, ?_, ?_⟩ <;>
  · rintro rfl
    exact absurd hc (by decide)

theorem uncounted_of_isGap (hc : isGap c = true) : Uncounted c := by
  refine ⟨?_, ?_, ?_, ?_⟩ <;>
  · rintro rfl
    exact absurd hc (by decide)

/-- Inside of a quotation nothing counts. -/
theorem Grammar.Quoted.foldlM_written {quote : Char} {content written : List Char}
    (h : Quoted quote content written) :
    written.foldlM Brackets.step? { depth := d, quote := some quote } =
      some { depth := d, quote := some quote } := by
  induction h with
  | nil => rfl
  | plain hne hslash others ih =>
      rw [List.foldlM_cons]
      simpa [Brackets.step?, hne, hslash] using ih
  | hidden others ih => simpa [Brackets.step?, List.foldlM_cons] using ih

/-- Its quote ends it. -/
theorem Grammar.Quoted.foldlM {quote : Char} {content written : List Char}
    (h : Quoted quote content written) (hquote : quote ≠ '\\') :
    (written ++ [quote]).foldlM Brackets.step? { depth := d, quote := some quote } =
      some { depth := d } := by
  rw [List.foldlM_append, h.foldlM_written]
  simp [Brackets.step?, hquote]

/-! ## Token by token -/

/-- The count behind a token. -/
def Token.count? (d : Nat) : Token → Option Nat
  | .mark m =>
    if m = "(" then some (d + 1)
    else if m = ")" then
      match d with
      | 0 => none
      | d + 1 => some d
    else some d
  | .number _ | .text _ | .parameter _ _ | .word _ => some d

theorem uncounted_of_mem_mark {m : String} (hm : m ∈ marks) (hopening : m ≠ "(")
    (hclosing : m ≠ ")") : ∀ c ∈ m.toList, Uncounted c := by
  have hall : ∀ m ∈ marks, m ≠ "(" → m ≠ ")" → m.toList.all (fun c => Uncounted c) = true := by
    decide
  intro c hc
  exact of_decide_eq_true (List.all_eq_true.mp (hall m hm hopening hclosing) c hc)

/-- The characters of a token, as far as the count is concerned: a bracket, a quotation, or nothing
that counts. -/
inductive Token.Counted : Token → List Char → Prop
  | opening : Counted (.mark "(") ['(']
  | closing : Counted (.mark ")") [')']
  | quotation {quote : Char} {content written : List Char}
      (hquote : quote = '\x27' ∨ quote = '\x22') (hquoted : Quoted quote content written) :
      Counted (.text (String.ofList content)) (quote :: (written ++ [quote]))
  | other {t : Token} {w : List Char} (ht : ∀ v, t ≠ .text v) (hcount : ∀ d, t.count? d = some d)
      (hw : ∀ c ∈ w, Uncounted c) : Counted t w

theorem Token.Starts.counted (h : t.Starts s r) : ∃ w, s = w ++ r ∧ t.Counted w := by
  have hplain {w : List Char} (hw : ∀ c ∈ w, isNameChar c = true ∨ c ∈ ['.', '#', '[', ']']) :
      ∀ c ∈ w, Uncounted c := by
    have hall : ∀ c ∈ ['.', '#', '[', ']'], Uncounted c := by simp [Uncounted]
    exact fun c hc => (hw c hc).elim uncounted_of_isNameChar (hall c)
  cases t with
  | number _ | parameter _ _ | word _ =>
      obtain ⟨w, hs, hw⟩ := h.exists_chars (by simp [Token.kind]) (by simp [Token.kind])
      exact ⟨w, hs, .other (fun _ h => by cases h) (fun _ => rfl) (hplain hw)⟩
  | text v =>
      obtain ⟨quote, content, written, hquote, hquoted, rfl, hv⟩ := quotation_eq_success.mp h
      obtain rfl := Expr.text.inj hv
      exact ⟨quote :: (written ++ [quote]), by simp, .quotation hquote hquoted⟩
  | mark m =>
      obtain ⟨hm, rfl, -⟩ := h
      refine ⟨m.toList, rfl, ?_⟩
      by_cases hopening : m = "("
      · subst hopening
        exact .opening
      · by_cases hclosing : m = ")"
        · subst hclosing
          exact .closing
        · refine .other (fun _ h => by cases h) (fun d => ?_) (uncounted_of_mem_mark hm hopening hclosing)
          simp only [Token.count?, hopening, hclosing, if_false]

theorem Token.Counted.foldlM (h : t.Counted w) (hcount : t.count? d = some d') :
    w.foldlM Brackets.step? { depth := d } = some { depth := d' } := by
  cases h with
  | opening =>
      obtain rfl := Option.some.inj hcount
      rfl
  | closing =>
      cases d with
      | zero => cases hcount
      | succ d =>
          obtain rfl := Option.some.inj hcount
          rfl
  | quotation hquote hquoted =>
      obtain rfl := Option.some.inj hcount
      rw [List.foldlM_cons]
      obtain rfl | rfl := hquote
      · exact hquoted.foldlM (by decide)
      · exact hquoted.foldlM (by decide)
  | other _ hsame hw =>
      obtain rfl := Option.some.inj ((hsame d).symm.trans hcount)
      exact foldlM_of_uncounted hw

/-- The count over a text is that over its tokens. -/
theorem Scans.foldlM (h : Scans s ts []) (hcount : ts.foldlM Token.count? d = some d') :
    s.foldlM Brackets.step? { depth := d } = some { depth := d' } := by
  generalize hr : [] = r at h
  induction h generalizing d with
  | @done s r h =>
      subst hr
      obtain rfl := Option.some.inj hcount
      exact foldlM_of_uncounted fun c hc => uncounted_of_isGap (Text.skipGap_eq_nil_iff.mp h c hc)
  | @token s mid r t ts first others ih =>
      rw [List.foldlM_cons] at hcount
      obtain ⟨d₁, hfirst, hothers⟩ := Option.bind_eq_some_iff.mp hcount
      obtain ⟨w, hw, hcounted⟩ := first.counted
      obtain ⟨gap, hgap, hs⟩ := Text.exists_isGap s
      rw [hs, hw, List.foldlM_append,
        foldlM_of_uncounted fun c hc => uncounted_of_isGap (hgap c hc)]
      show (w ++ mid).foldlM Brackets.step? { depth := d } = _
      rw [List.foldlM_append, hcounted.foldlM hfirst]
      exact ih hothers hr

/-! ## Balance -/

theorem foldlM_operator (op : Operator) (d : Nat) :
    op.tokens.foldlM Token.count? d = some d := by
  cases op <;> rfl

theorem foldlM_separator (args : List Expr) (d : Nat) :
    (separator args).foldlM Token.count? d = some d := by
  cases args <;> rfl

theorem foldlM_link {negated : Bool} {name : String} (hts : ts.foldlM Token.count? d = some d) :
    (Token.mark (linkMark negated) :: Token.word name :: Token.mark (linkMark negated) :: ts).foldlM
      Token.count? d = some d := by
  cases negated <;> exact hts

theorem foldlM_append_of {us : List Token} (hts : ts.foldlM Token.count? d = some d)
    (hus : us.foldlM Token.count? d = some d) : (ts ++ us).foldlM Token.count? d = some d := by
  rw [List.foldlM_append, hts]
  exact hus

theorem foldlM_enclosed (hts : ts.foldlM Token.count? (d + 1) = some (d + 1)) :
    (Token.mark "(" :: ts ++ [Token.mark ")"]).foldlM Token.count? d = some d := by
  show (ts ++ [Token.mark ")"]).foldlM Token.count? (d + 1) = some d
  rw [List.foldlM_append, hts]
  rfl

mutual

/-- What is written leaves the count as it was. -/
theorem Spells.foldlM {k : Nat} {e : Expr} {ts : List Token} :
    Spells loose k e ts → ∀ d, ts.foldlM Token.count? d = some d
  | .enclosed inner, d => foldlM_enclosed (inner.foldlM (d + 1))
  | .domain, _ | .target, _ | .parameter _ _, _ | .number _, _ | .text, _ | .bare _ _, _ => rfl
  | .construct _ hargs, d => foldlM_enclosed (hargs.foldlM (d + 1))
  | .builtin _ hargs, d => foldlM_enclosed (hargs.foldlM (d + 1))
  | .formula _ _ hargs hlast _, d =>
      foldlM_enclosed (foldlM_append_of (foldlM_append_of (hargs.foldlM (d + 1))
        (foldlM_separator _ (d + 1))) (hlast.foldlM (d + 1)))
  | .property _ _ hsubject, d => foldlM_append_of (hsubject.foldlM d) rfl
  | .method _ _ hsubject hargs, d =>
      foldlM_append_of (hsubject.foldlM d) (foldlM_enclosed (hargs.foldlM (d + 1)))
  | .relation _ _ hdomain htarget, d =>
      foldlM_append_of (hdomain.foldlM d) (foldlM_link (htarget.foldlM d))
  | .negate _ inner, d => inner.foldlM d
  | .binary _ hleft hright, d =>
      foldlM_append_of (foldlM_append_of (hleft.foldlM d) (foldlM_operator _ d)) (hright.foldlM d)

theorem SpellsAll.foldlM {args : List Expr} {ts : List Token} :
    SpellsAll loose args ts → ∀ d, ts.foldlM Token.count? d = some d
  | .nil, _ => rfl
  | .cons first others, d =>
      foldlM_append_of (foldlM_append_of (first.foldlM d) (foldlM_separator _ d)) (others.foldlM d)

end

theorem checkBrackets_eq_ok (hscans : Scans s ts []) (h : Spells loose k e ts) :
    checkBrackets s = .ok () :=
  scan_eq_ok (hscans.foldlM (h.foldlM 0)) rfl

end Credence.Expr
