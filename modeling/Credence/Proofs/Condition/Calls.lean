import Credence.Proofs.Condition.Tokens
import Credence.Proofs.Parsing.Steady

/-!
# Enough nested calls

The grammar of conditions is written with a number of nested calls left.  Each of them stands behind a
character, an opening parenthesis, a comma, a minus sign or the sign of a power, so rules that may call
what is steady below a length are steady one length further (`steady_calls`).  A text is therefore
read in the same way with any number of calls that is not below its length
(`condition_eq_of_length_le`): the number is no bound on what is read.
-/

namespace Credence.Expr.Grammar

open Credence.Parser

variable {n : Nat} {inner inner' : Calls}

/-! ## Rules that call nothing -/

theorem eats_nameChars : Eats nameChars := by
  intro s cs r h
  obtain ⟨⟨c, rest, rfl, -, -⟩, rfl, -⟩ := nameChars_eq_success.mp h
  simp only [List.length_append, List.length_cons]
  omega

theorem eats_identifier : Eats identifier := fun s _ r h =>
  eats_nameChars s _ r (identifier_eq_success.mp h).1

theorem steady_keyword {word : String} (hword : word.toList ≠ []) :
    Steady n (keyword word) (keyword word) :=
  (eats_exactly hword).steady.bind fun _ => steady_notAhead _

theorem steady_sign {text : String} (htext : text.toList ≠ []) (op : Operator) :
    Steady n (sign text op) (sign text op) :=
  (eats_exactly htext).steady.bind fun _ => steady_pure op

theorem steady_orSign : Steady n orSign orSign :=
  (steady_keyword (by decide)).bind fun _ => steady_pure _

theorem steady_andSign : Steady n andSign andSign :=
  (steady_keyword (by decide)).bind fun _ => steady_pure _

theorem steady_comparisonSign : Steady n comparisonSign comparisonSign := by
  have hisNot : Steady n
      (do keyword "is"; let _ ← spanWhere Text.isGap; keyword "not"; return .isNot : Rule Operator)
      (do keyword "is"; let _ ← spanWhere Text.isGap; keyword "not"; return .isNot) :=
    (steady_keyword (by decide)).bind fun _ => (steady_spanWhere _).bind fun _ =>
      (steady_keyword (by decide)).bind fun _ => steady_pure _
  have his : Steady n (do keyword "is"; return .is : Rule Operator) (do keyword "is"; return .is) :=
    (steady_keyword (by decide)).bind fun _ => steady_pure _
  exact steady_firstOf (.cons (steady_sign (by decide) _) (.cons (steady_sign (by decide) _)
    (.cons (steady_sign (by decide) _) (.cons (steady_sign (by decide) _)
      (.cons (steady_sign (by decide) _) (.cons (steady_sign (by decide) _)
        (.cons hisNot (.cons his .nil))))))))

theorem steady_sumSign : Steady n sumSign sumSign :=
  steady_firstOf (.cons (steady_sign (by decide) _) (.cons (steady_sign (by decide) _) .nil))

theorem steady_productSign : Steady n productSign productSign := by
  have hmul : Steady n (do let _ ← char '*'; notAhead (char '*'); return .mul : Rule Operator)
      (do let _ ← char '*'; notAhead (char '*'); return .mul) :=
    (eats_char _).steady.bind fun _ => (steady_notAhead _).bind fun _ => steady_pure _
  exact steady_firstOf (.cons (steady_sign (by decide) _) (.cons (steady_sign (by decide) _)
    (.cons hmul (.cons (steady_sign (by decide) _) .nil))))

theorem steady_number : Steady n number number :=
  (eats_someWhere _).steady.bind fun _ =>
    ((eats_char _).steady.bind fun _ => (eats_someWhere _).steady).optional?.bind fun _ =>
      steady_pure _

theorem steady_quotedChar (quote : Char) : Steady n (quotedChar quote) (quotedChar quote) :=
  ((eats_char _).steady.bind fun _ => (eats_charWhere _).steady).orElse (eats_charWhere _).steady

theorem steady_quotation : Steady n quotation quotation :=
  ((eats_char _).steady.orElse (eats_char _).steady).bind fun quote =>
    (steady_quotedChar quote).repeated.bind fun _ =>
      ((eats_char _).steady.expecting _).bind fun _ => steady_pure _

theorem steady_between {mark : Rule Unit} (hmark : Steady n mark mark) :
    Steady n (between mark) (between mark) :=
  hmark.spaced.bind fun _ => eats_identifier.steady.spaced.bind fun _ =>
    hmark.spaced.bind fun _ => steady_pure _

theorem steady_loneEquals : Steady n loneEquals loneEquals :=
  (eats_char _).steady.bind fun _ => steady_notAhead _

theorem steady_link : Steady n link link :=
  ((steady_between steady_loneEquals).bind fun _ => steady_pure _).orElse
    ((steady_between (eats_exactly (by decide)).steady).bind fun _ => steady_pure _)

/-! ## Rules that call the grammar -/

/-- Behind the opening parenthesis the text is shorter. -/
theorem steady_arguments (h : Steady n inner.whole inner'.whole) :
    Steady (n + 1) (arguments inner) (arguments inner') := by
  refine (eats_char _).spaced.bind fun _ =>
    (eats_char ')').spaced.steady.optional?.bind fun closed => ?_
  cases closed with
  | some _ => exact steady_pure _
  | none =>
      have hfurther : Steady n
          (do let _ ← spaced (char ','); committed (withSource inner.whole))
          (do let _ ← spaced (char ','); committed (withSource inner'.whole)) :=
        (eats_char _).spaced.steady.bind fun _ => h.withSource.committed
      exact h.withSource.committed.bind fun _ => hfurther.repeated.bind fun _ =>
        (eats_char _).spaced.steady.committed.bind fun _ => steady_pure _

theorem steady_hash (h : Steady n inner.whole inner'.whole) :
    Steady (n + 1) (hash inner) (hash inner') := by
  refine (eats_char _).steady.bind fun _ => Steady.bind ?_ fun tag =>
    ((eats_someWhere _).steady.expecting _).bind fun name => ?_
  · exact ((eats_char _).steady.bind fun _ => Steady.expecting _
      ((eats_someWhere _).steady.bind fun _ => (eats_char _).steady.bind fun _ =>
        steady_pure _)).optional?
  · cases tag with
    | some tag => exact steady_pure _
    | none => exact Steady.ifAhead _ ((steady_arguments h).bind fun _ => steady_pure _) (steady_pure _)

theorem steady_word (h : Steady n inner.whole inner'.whole) :
    Steady (n + 1) (word inner) (word inner') := by
  have hname : Steady (n + 1) (orElse (do keyword "is"; return "is") identifier)
      (orElse (do keyword "is"; return "is") identifier) :=
    ((steady_keyword (by decide)).bind fun _ => steady_pure _).orElse eats_identifier.steady
  intro s hs
  refine hname.bind (fun name => Steady.ifAhead _ ((steady_arguments h).bind fun args => ?_) ?_) s hs
  · cases call name args with
    | ok e => exact steady_pure e
    | error reason => exact steady_failAt s reason
  · split
    · exact steady_refuse
    · exact steady_pure _

theorem steady_enclosed (h : Steady n inner.whole inner'.whole) :
    Steady (n + 1) (enclosed inner) (enclosed inner') :=
  (eats_char _).bind fun _ => h.bind fun _ =>
    (eats_char _).spaced.steady.committed.bind fun _ => steady_pure _

theorem steady_atom (h : Steady n inner.whole inner'.whole) :
    Steady (n + 1) (atom inner) (atom inner') := by
  have hplace (c : Char) (e : Expr) : Steady (n + 1) (do let _ ← char c; return e : Rule Expr)
      (do let _ ← char c; return e) :=
    (eats_char c).steady.bind fun _ => steady_pure e
  exact (steady_firstOf (.cons steady_number (.cons steady_quotation (.cons (hplace _ _)
    (.cons (hplace _ _) (.cons (steady_hash h) (.cons (steady_word h)
      (.cons (steady_enclosed h) .nil)))))))).spaced

theorem steady_access (h : Steady n inner.whole inner'.whole) :
    Steady (n + 1) (access inner) (access inner') := by
  refine (eats_char _).spaced.steady.bind fun _ =>
    (eats_identifier.steady.spaced.expecting _).bind fun name =>
      (steady_arguments h).optional?.bind fun args => ?_
  cases args <;> exact steady_pure _

theorem steady_subject (h : Steady n inner.whole inner'.whole) :
    Steady (n + 1) (subject inner) (subject inner') :=
  (steady_atom h).bind fun _ => (steady_access h).repeated.bind fun _ => steady_pure _

theorem steady_relational (h : Steady n inner.whole inner'.whole) :
    Steady (n + 1) (relational inner) (relational inner') := by
  refine (steady_subject h).bind fun domain => steady_link.optional?.bind fun found => ?_
  cases found with
  | some found => exact (steady_subject h).committed.bind fun _ => steady_pure _
  | none => exact Steady.ifAhead _ (steady_refuse.expecting _) (steady_pure _)

/-- Behind the sign of a power the text is shorter. -/
theorem steady_power (h : Steady n inner.whole inner'.whole)
    (hsigned : Steady n inner.signed inner'.signed) :
    Steady (n + 1) (power inner) (power inner') :=
  (steady_relational h).bind fun _ =>
    ((eats_exactly (by decide)).spaced.bind fun _ => hsigned.committed).optional?.bind fun _ =>
      steady_pure _

/-- And behind a minus sign. -/
theorem steady_signed (h : Steady n inner.whole inner'.whole)
    (hsigned : Steady n inner.signed inner'.signed) :
    Steady (n + 1) (signed inner) (signed inner') :=
  ((eats_char _).spaced.bind fun _ => hsigned.committed.bind fun _ => steady_pure _).orElse
    (steady_power h hsigned)

/-! ## The whole grammar -/

/-- Below a length any numbers of calls that are not below it make no difference. -/
theorem steady_calls {k k' : Nat} (hk : n ≤ k) (hk' : n ≤ k') :
    Steady n (calls k).whole (calls k').whole ∧ Steady n (calls k).signed (calls k').signed := by
  induction n generalizing k k' with
  | zero => exact ⟨steady_zero _ _, steady_zero _ _⟩
  | succ n ih =>
      obtain ⟨k, rfl⟩ := Nat.exists_eq_add_of_lt hk
      obtain ⟨k', rfl⟩ := Nat.exists_eq_add_of_lt hk'
      obtain ⟨hwhole, hsigned⟩ := @ih (n + k) (n + k') (by omega) (by omega)
      have hoperand := steady_signed hwhole hsigned
      exact ⟨((((hoperand.leftGrouped steady_productSign).leftGrouped steady_sumSign).leftGrouped
        steady_comparisonSign).leftGrouped steady_andSign).leftGrouped steady_orSign, hoperand⟩

/-- A text is read in the same way with any number of calls that is not below its length. -/
theorem condition_eq_of_length_le {s : List Char} (hn : s.length ≤ n) :
    condition n s = condition s.length s := by
  have hcalls : Steady (s.length + 1) (calls (n + 1)).whole (calls (s.length + 1)).whole :=
    (steady_calls (Nat.succ_le_succ hn) le_rfl).1
  have hspaced := (hcalls.spaced s (Nat.lt_succ_self _)).1
  unfold condition toEnd
  rw [hspaced]

end Credence.Expr.Grammar
