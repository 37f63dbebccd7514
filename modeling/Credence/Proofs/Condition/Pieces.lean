import Credence.Proofs.Condition.Local
import Credence.Proofs.Text.Blank
import Credence.Proofs.Text.Joined

/-!
# Calls come apart into their arguments

The text of a call is a name, and between parentheses texts with commas between them.  If each of
these is a condition by itself, then the call is read as the function applied to what they are read
as (`CallGaps.exists_parse_text`).  Whatever stands before or behind a comma is no matter, since
arguments are read by themselves (`local_calls`).  The other way round, what the rule of arguments
takes comes apart into such texts (`exists_pieces_of_arguments`).

A call stands alone in its text, so nothing of the levels above an atom is there: such a level takes
an atom at the end of a text for itself, and what it reads as an atom was one (`Widens`).
-/

namespace Credence.Expr

open Grammar Credence.Parser
open Text (IsGap skipGap isGap isNameChar skipGap_skipGap)

variable {inner : Calls} {k n : Nat} {e : Expr} {s r t w : List Char} {ts : List Token} {c : Char}
  {name : String}

/-! ## The grammar decides -/

theorem Token.Starts.not_blank {t : Token} (h : t.Starts s r) :
    ∃ c ∈ s, Text.isBlank c = false := by
  by_cases hkind : t.kind = 3
  · cases t with
    | word w =>
        obtain ⟨⟨c, rest, hw, hc, -⟩, rfl, -⟩ := nameChars_eq_success.mp h
        refine ⟨c, by simp [hw], ?_⟩
        cases hblank : Text.isBlank c with
        | false => rfl
        | true =>
            have hname := Token.isNameChar_of_isAlphabetic hc
            rw [Text.isNameChar_of_isBlank hblank] at hname
            cases hname
    | number _ | text _ | parameter _ _ | mark _ => cases hkind
  · exact exists_not_blank h hkind

/-- A text is a condition if the grammar takes it. -/
theorem parse_ofList_eq_ok :
    parse (String.ofList s) = .ok e ↔ condition s.length s = .success e [] := by
  rw [parse_eq_ok, String.toList_ofList]
  constructor
  · rintro ⟨-, -, r, h⟩
    obtain rfl := (toEnd_eq_success.mp h).2
    exact h
  · intro h
    obtain ⟨ts, hts, hscans⟩ := spells_of_condition h
    refine ⟨?_, checkBrackets_eq_ok hscans hts, [], h⟩
    intro hnil
    have hblank := List.dropWhile_eq_nil_iff.mp hnil
    cases hscans with
    | done => exact hts.ne_nil rfl
    | token first others =>
        obtain ⟨c, hc, hne⟩ := first.not_blank
        rw [hblank c (mem_of_mem_skipGap hc)] at hne
        cases hne

/-- With any number of nested calls that is not below the length. -/
theorem parse_ofList_iff (hn : s.length ≤ n) :
    parse (String.ofList s) = .ok e ↔
      ∃ gap, (calls (n + 1)).whole (skipGap s) = .success e gap ∧ IsGap gap := by
  rw [parse_ofList_eq_ok, ← condition_eq_of_length_le hn]
  unfold condition
  rw [toEnd_eq_success]
  constructor
  · rintro ⟨h, -⟩
    obtain ⟨gap, hgap, hnil⟩ := spaced_eq_success.mp h
    exact ⟨gap, hgap, Text.skipGap_eq_nil_iff.mp hnil⟩
  · rintro ⟨gap, h, hgap⟩
    exact ⟨spaced_eq_success.mpr ⟨gap, h, Text.skipGap_eq_nil_iff.mpr hgap⟩, rfl⟩

/-! ## Atoms alone in a text -/

/-- A level of the grammar takes what a stronger one takes of the rest of the text, and begins with
it.  What it reads as an atom is all there was. -/
structure Widens (p q : Rule Expr) (s : List Char) : Prop where
  alone : ∀ {e}, q s = .success e [] → p s = .success e []
  begins : ∀ {e r}, p s = .success e r → ∃ first mid, q s = .success first mid ∧
    (e.strength = 9 → first = e ∧ mid = r)

theorem Widens.trans {p q q' : Rule Expr} (hp : Widens p q s) (hq : Widens q q' s) :
    Widens p q' s where
  alone h := hp.alone (hq.alone h)
  begins h := by
    obtain ⟨e₁, r₁, h₁, heq₁⟩ := hp.begins h
    obtain ⟨e₂, r₂, h₂, heq₂⟩ := hq.begins h₁
    refine ⟨e₂, r₂, h₂, fun hstrength => ?_⟩
    obtain ⟨rfl, rfl⟩ := heq₁ hstrength
    exact heq₂ hstrength

section

variable {α : Type} {p : Rule α} {grow : Expr → α → Expr} {as : List α}

theorem strength_foldl_ne (h : Turns p s as r)
    (hgrow : ∀ {s a r}, p s = .success a r → ∀ e, (grow e a).strength ≠ 9)
    (he : e.strength ≠ 9) : (as.foldl grow e).strength ≠ 9 := by
  induction h generalizing e with
  | done => exact he
  | turn first others ih => exact ih (hgrow first e)

/-- Turns that make something weaker than an atom leave an atom only if there are none. -/
theorem eq_nil_of_turns (h : Turns p s as r)
    (hgrow : ∀ {s a r}, p s = .success a r → ∀ e, (grow e a).strength ≠ 9)
    (hstrength : (as.foldl grow e).strength = 9) : as = [] ∧ s = r := by
  cases h with
  | done => exact ⟨rfl, rfl⟩
  | turn first others =>
      have hne := strength_foldl_ne others hgrow (hgrow first e)
      exact absurd hstrength hne

end

theorem Operator.strength_ne (op : Operator) : op.strength ≠ 9 := by cases op <;> decide

theorem widens_subject (s : List Char) : Widens (subject inner) (atom inner) s where
  alone h := by
    refine subject_eq_success.mpr ⟨_, [], [], h, ?_, rfl⟩
    exact Turns.done.repeated refuses_access_nil (Nat.zero_le _)
  begins h := by
    obtain ⟨first, mid, steps, hfirst, hsteps, rfl⟩ := subject_eq_success.mp h
    refine ⟨first, mid, hfirst, fun hstrength => ?_⟩
    have hgrow {s step r} (hstep : access inner s = .success step r) (e : Expr) :
        (step e).strength ≠ 9 := by
      obtain ⟨c, mid, name, mid', -, -, ⟨xs, -, rfl⟩ | ⟨-, -, rfl⟩⟩ := access_eq_success.mp hstep
      · simp [strength]
      · simp [strength]
    obtain ⟨rfl, rfl⟩ := eq_nil_of_turns (turns_of_repeated hsteps) hgrow hstrength
    exact ⟨rfl, rfl⟩

theorem widens_relational (s : List Char) : Widens (relational inner) (subject inner) s where
  alone h := by
    refine relational_eq_success.mpr ⟨_, [], h, .inr ⟨?_, ?_, rfl, rfl⟩⟩
    · exact (stops_nil 7).refuses_link le_rfl (.done rfl)
    · exact (takesMark_loneEquals.refuses (.done rfl) (by simp)).accepts
  begins h := by
    obtain ⟨domain, mid, hdomain, ⟨name, negated, mid', target, -, -, rfl⟩ | ⟨-, -, rfl, rfl⟩⟩ :=
      relational_eq_success.mp h
    · refine ⟨domain, mid, hdomain, fun hstrength => ?_⟩
      cases hstrength
    · exact ⟨_, _, hdomain, fun _ => ⟨rfl, rfl⟩⟩

theorem widens_power (s : List Char) : Widens (power inner) (relational inner) s where
  alone h := by
    refine power_eq_success.mpr ⟨_, [], h, .inr ⟨?_, rfl, rfl⟩⟩
    exact takesMark_power.refuses (.done rfl) (by simp)
  begins h := by
    obtain ⟨base, mid, hbase, ⟨u, mid', exponent, -, -, rfl⟩ | ⟨-, rfl, rfl⟩⟩ :=
      power_eq_success.mp h
    · refine ⟨base, mid, hbase, fun hstrength => ?_⟩
      cases hstrength
    · exact ⟨_, _, hbase, fun _ => ⟨rfl, rfl⟩⟩

theorem widens_signed (hminus : (spacedChar '-').Refuses s) :
    Widens (signed inner) (power inner) s where
  alone h := signed_eq_success.mpr (.inr ⟨hminus, h⟩)
  begins h := by
    obtain ⟨c, mid, e', hsign, -, -⟩ | ⟨-, h⟩ := signed_eq_success.mp h
    · exact absurd hsign hminus.ne_success
    · exact ⟨_, _, h, fun _ => ⟨rfl, rfl⟩⟩

theorem widens_leftGrouped {operand : Rule Expr} {operator : Rule Operator}
    (hoperator : TakesOperators operator k) (s : List Char) :
    Widens (leftGrouped .binary operand operator) operand s where
  alone h := by
    have hrefuses : (further operand operator).Refuses [] := by
      unfold further
      rw [refuses_bind]
      exact .inl (hoperator.refuses (.done rfl) (stops_nil k))
    exact leftGrouped_eq_success.mpr
      ⟨_, [], [], h, Turns.done.repeated hrefuses (Nat.zero_le _), rfl⟩
  begins h := by
    obtain ⟨first, mid, steps, hfirst, hsteps, rfl⟩ := leftGrouped_eq_success.mp h
    refine ⟨first, mid, hfirst, fun hstrength => ?_⟩
    have hgrow (left : Expr) (x : Operator × Expr) : (binary x.1 left x.2).strength ≠ 9 :=
      Operator.strength_ne x.1
    obtain ⟨rfl, rfl⟩ :=
      eq_nil_of_turns (turns_of_repeated hsteps) (fun _ left => hgrow left _) hstrength
    exact ⟨rfl, rfl⟩

/-- Without a sign before it, a condition begins with an atom. -/
theorem widens_calls (n : Nat) (hminus : (spacedChar '-').Refuses s) :
    Widens (calls (n + 1)).whole (atom (calls n)) s := by
  have hsubject : Widens (subject (calls n)) (atom (calls n)) s := widens_subject s
  have hpower : Widens (power (calls n)) (atom (calls n)) s :=
    (widens_power s).trans ((widens_relational s).trans hsubject)
  have hoperand : Widens (signed (calls n)) (atom (calls n)) s :=
    (widens_signed hminus).trans hpower
  have hproduct : Widens (product (calls n)) (atom (calls n)) s :=
    (widens_leftGrouped takesOperators_productSign s).trans hoperand
  have hsum : Widens (sum (calls n)) (atom (calls n)) s :=
    (widens_leftGrouped takesOperators_sumSign s).trans hproduct
  have hcomparison : Widens (comparison (calls n)) (atom (calls n)) s :=
    (widens_leftGrouped takesOperators_comparisonSign s).trans hsum
  have hconjunction : Widens (conjunction (calls n)) (atom (calls n)) s :=
    (widens_leftGrouped takesOperators_andSign s).trans hcomparison
  exact (widens_leftGrouped takesOperators_orSign s).trans hconjunction

/-- Where a word begins, no other atom does. -/
theorem atom_eq_success_of_word (h : (Token.word name).Starts (skipGap s) r) {z : List Char} :
    atom inner s = .success e z ↔
      ∃ rest, word inner (skipGap s) = .success e rest ∧ skipGap rest = z := by
  rw [atom_eq_spaced, spaced_eq_success]
  refine exists_congr fun rest => and_congr_left fun _ => ?_
  have hplaces := refuses_places h (by simp [Token.kind]) (by simp [Token.kind])
  have hhash : (hash inner).Refuses (skipGap s) := refuses_hash_of_kind h (by simp [Token.kind])
  constructor
  · intro hatom
    obtain ⟨before, p, after, hatoms, -, hp⟩ := firstOf_eq_success.mp hatom
    have hmem : p ∈ atoms inner := by simp [hatoms]
    have hnone (hrefuses : p.Refuses (skipGap s)) : word inner (skipGap s) = .success e rest :=
      absurd hp hrefuses.ne_success
    obtain hp' | hp' := List.mem_append.mp (show p ∈ [Grammar.number, quotation, place '%' .domain,
      place '@' .target] ++ [hash inner, word inner, enclosed inner] from hmem)
    · exact hnone (hplaces p hp')
    · simp only [List.mem_cons, List.not_mem_nil, or_false] at hp'
      obtain rfl | rfl | rfl := hp'
      · exact hnone hhash
      · exact hp
      · refine hnone ?_
        unfold enclosed
        rw [refuses_bind]
        exact .inl (refuses_char_of_kind h (by simp [Token.kind]; decide))
  · intro hword
    refine firstOf_eq_success.mpr ⟨[Grammar.number, quotation, place '%' .domain,
      place '@' .target] ++ [hash inner], word inner, [enclosed inner], rfl, fun q hq => ?_, hword⟩
    obtain hq | hq := List.mem_append.mp hq
    · exact hplaces q hq
    · obtain rfl := List.mem_singleton.mp hq
      exact hhash

/-! ## One argument -/

/-- A text that is a condition by itself. -/
def IsCondition (s : List Char) : Prop := ∃ e, parse (String.ofList s) = .ok e

theorem isCondition_iff : IsCondition s ↔ (parse (String.ofList s)).isOk = true := by
  unfold IsCondition
  cases parse (String.ofList s) with
  | ok e => exact ⟨fun _ => rfl, fun _ => ⟨e, rfl⟩⟩
  | error reason => simp [Except.isOk, Except.toBool]

instance (s : List Char) : Decidable (IsCondition s) := decidable_of_iff _ isCondition_iff.symm

/-- An argument is read as the tree of its text.  The source that is kept of it lacks no more than
the gaps around it. -/
structure ReadAs (piece : List Char) (x : List Char × Expr) : Prop where
  tree : parse (String.ofList piece) = .ok x.2
  source : ∃ before after, IsGap before ∧ IsGap after ∧ piece = before ++ x.1 ++ after

/-- A condition is read as an argument before any end. -/
theorem IsCondition.exists_readAs (h : IsCondition w) (hn : w.length ≤ n) (ht : Closes t) :
    ∃ x gap, ReadAs w x ∧ IsGap gap ∧
      withSource (calls (n + 1)).whole (skipGap (w ++ t)) = .success x (gap ++ t) := by
  obtain ⟨e, h⟩ := h
  obtain ⟨gap, hwhole, hgap⟩ := (parse_ofList_iff hn).mp h
  have hlocal : Carries (calls (n + 1)).whole := (local_calls (n + 1)).1.toCarries
  obtain ⟨v, hv⟩ := hlocal.suffix hwhole
  refine ⟨(v, e), gap, ⟨h, ?_⟩, hgap, ?_⟩
  · obtain ⟨before, hbefore, hw⟩ := Text.exists_isGap w
    refine ⟨before, gap, hbefore, hgap, ?_⟩
    rw [List.append_assoc, hv]
    exact hw
  · have halone :
        withSource (calls (n + 1)).whole (skipGap w ++ []) = .success (v, e) (gap ++ []) := by
      rw [List.append_nil, List.append_nil]
      refine withSource_eq_success.mpr ⟨hwhole, ?_⟩
      rw [← hv, List.length_append, Nat.add_sub_cancel, List.take_left]
    rw [skipGap_append_closes ht]
    exact hlocal.withSource.success closes_nil ht halone

/-- What is read before an end is a condition by itself, with any gap before it. -/
theorem parse_of_whole {before gap : List Char} (hbefore : IsGap before) (hgap : IsGap gap)
    (hskip : skipGap (w ++ t) = w ++ t) (ht : Closes t) (hn : (before ++ w).length ≤ n)
    (h : (calls (n + 1)).whole (w ++ t) = .success e (gap ++ t)) :
    parse (String.ofList (before ++ w)) = .ok e := by
  have hw : skipGap w = w := by
    rw [skipGap_append_closes ht] at hskip
    exact List.append_cancel_right hskip
  have halone := (local_calls (n + 1)).1.success ht closes_nil h
  rw [List.append_nil, List.append_nil] at halone
  refine (parse_ofList_iff hn).mpr ⟨gap, ?_, hgap⟩
  rw [Text.skipGap_append hbefore, hw]
  exact halone

theorem spacedChar_gap_append {gap : List Char} (hgap : IsGap gap) (hc : isGap c = false)
    (rest : List Char) : spacedChar c (gap ++ c :: rest) = .success c (skipGap rest) := by
  refine spaced_eq_success.mpr ⟨rest, char_eq_success.mpr ⟨?_, rfl⟩, rfl⟩
  rw [Text.skipGap_append hgap, Text.skipGap_cons hc]

theorem exists_gap_of_spacedChar {d : Char} (h : spacedChar c s = .success d r) :
    ∃ gap rest, IsGap gap ∧ s = gap ++ c :: rest ∧ r = skipGap rest := by
  obtain ⟨rest, hrest, rfl⟩ := spaced_eq_success.mp h
  obtain ⟨hs, -⟩ := char_eq_success.mp hrest
  obtain ⟨gap, hgap, heq⟩ := Text.exists_isGap s
  rw [hs] at heq
  exact ⟨gap, rest, hgap, heq, rfl⟩

/-- Where parentheses match, the first thing is no closing one. -/
theorem head?_skipGap_ne_closing {offset : Nat} (h : Brackets.scan {} offset s = .ok ()) :
    (skipGap s).head? ≠ some ')' := by
  induction s generalizing offset with
  | nil => simp [skipGap]
  | cons c s ih =>
      cases hgap : isGap c with
      | true =>
          have hstep : Brackets.step? {} c = some {} := step?_of_uncounted (uncounted_of_isGap hgap)
          have hskip : skipGap (c :: s) = skipGap s := List.dropWhile_cons_of_pos hgap
          unfold Brackets.scan at h
          rw [hstep] at h
          rw [hskip]
          exact ih h
      | false =>
          rw [Text.skipGap_cons hgap]
          intro hhead
          obtain rfl := Option.some.inj hhead
          cases h

theorem IsCondition.refuses_closing (h : IsCondition w) (ht : Closes t) :
    (spacedChar ')').Refuses (skipGap (w ++ t)) := by
  obtain ⟨e, h⟩ := h
  obtain ⟨gap, hwhole, -⟩ := (parse_ofList_iff le_rfl).mp h
  obtain ⟨-, hbrackets, -⟩ := parse_eq_ok.mp h
  rw [String.toList_ofList] at hbrackets
  have hne : skipGap w ≠ [] := by
    intro hnil
    have hlt := bites_calls _ hwhole
    rw [hnil] at hlt
    exact Nat.not_lt_zero _ hlt
  rw [refuses_spaced, refuses_char, skipGap_skipGap, skipGap_append_closes ht,
    List.head?_append_of_ne_nil _ hne]
  exact head?_skipGap_ne_closing hbrackets

/-! ## Arguments with commas between them -/

theorem closes_further (pieces : List (List Char)) (rest : List Char) :
    Closes (pieces.flatMap (',' :: ·) ++ ')' :: rest) := by
  cases pieces with
  | nil => exact closes_closing rest
  | cons piece pieces => exact closes_comma _

section

variable {pieces : List (List Char)} {xs : List (List Char × Expr)} {gap : List Char}

/-- Conditions behind commas are read one after the other. -/
theorem exists_turns (hpieces : ∀ a ∈ pieces, IsCondition a) (hn : ∀ a ∈ pieces, a.length ≤ n)
    (hgap : IsGap gap) (rest : List Char) :
    ∃ xs gap', List.Forall₂ ReadAs pieces xs ∧ IsGap gap' ∧
      Turns (nextArgument (calls (n + 1))) (gap ++ (pieces.flatMap (',' :: ·) ++ ')' :: rest)) xs
        (gap' ++ ')' :: rest) := by
  induction pieces generalizing gap with
  | nil => exact ⟨[], gap, .nil, hgap, .done⟩
  | cons a pieces ih =>
      obtain ⟨ha, hpieces⟩ := List.forall_mem_cons.mp hpieces
      obtain ⟨hna, hn⟩ := List.forall_mem_cons.mp hn
      obtain ⟨x, gap₁, hx, hgap₁, hread⟩ := ha.exists_readAs hna (closes_further pieces rest)
      obtain ⟨hwhole, hsource⟩ := withSource_eq_success.mp hread
      obtain ⟨xs, gap', hxs, hgap', hturns⟩ := ih hpieces hn hgap₁
      refine ⟨x :: xs, gap', .cons hx hxs, hgap', .turn (nextArgument_eq_success.mpr ⟨',', _, ?_,
        hwhole, hsource⟩) hturns⟩
      rw [List.flatMap_cons, List.append_assoc, List.cons_append]
      exact spacedChar_gap_append hgap (by decide) _

/-- The arguments of a call are read if each of them is a condition by itself. -/
theorem exists_arguments (hne : pieces ≠ []) (hpieces : ∀ a ∈ pieces, IsCondition a)
    (hn : ∀ a ∈ pieces, a.length ≤ n) (hgap : IsGap gap) (rest : List Char) :
    ∃ xs, List.Forall₂ ReadAs pieces xs ∧
      arguments (calls (n + 1)) (gap ++ '(' :: ([','].intercalate pieces ++ ')' :: rest)) =
        .success xs (skipGap rest) := by
  obtain ⟨a, pieces, rfl⟩ := List.exists_cons_of_ne_nil hne
  obtain ⟨ha, hpieces⟩ := List.forall_mem_cons.mp hpieces
  obtain ⟨hna, hn⟩ := List.forall_mem_cons.mp hn
  have hcloses : Closes (pieces.flatMap (',' :: ·) ++ ')' :: rest) := closes_further pieces rest
  obtain ⟨x, gap₁, hx, hgap₁, hread⟩ := ha.exists_readAs hna hcloses
  obtain ⟨hwhole, hsource⟩ := withSource_eq_success.mp hread
  obtain ⟨xs, gap₂, hxs, hgap₂, hturns⟩ := exists_turns hpieces hn hgap₁ rest
  have hfurther : repeated (nextArgument (calls (n + 1)))
      (gap₁ ++ (pieces.flatMap (',' :: ·) ++ ')' :: rest)) = .success xs (gap₂ ++ ')' :: rest) := by
    refine (furtherArguments_eq_success (local_calls (n + 1)).1.toCarries).mpr ⟨hturns, ?_⟩
    rw [Text.skipGap_append hgap₂, Text.skipGap_cons (by decide)]
    simp
  refine ⟨x :: xs, .cons hx hxs, arguments_eq_success.mpr ⟨'(', _,
    spacedChar_gap_append hgap (by decide) _, .inr ⟨?_, x, _, xs, _, ')', ?_, ?_, hfurther,
      spacedChar_gap_append hgap₂ (by decide) _, rfl⟩⟩⟩
  · rw [Text.intercalate_cons, List.append_assoc]
    exact ha.refuses_closing hcloses
  · rw [Text.intercalate_cons, List.append_assoc]
    exact hwhole
  · rw [Text.intercalate_cons, List.append_assoc]
    exact hsource

/-- What is read as an argument and further ones comes apart at the commas between them. -/
theorem exists_pieces_of_turns {mid z z' : List Char}
    (hwhole : (calls (n + 1)).whole mid = .success e r) (hskip : skipGap mid = mid)
    (hturns : Turns (nextArgument (calls (n + 1))) r xs z)
    (hclosing : spacedChar ')' z = .success c z') (hgap : IsGap gap)
    (hn : (gap ++ mid).length ≤ n) :
    ∃ pieces rest, pieces ≠ [] ∧ (∀ a ∈ pieces, IsCondition a) ∧
      gap ++ mid = [','].intercalate pieces ++ ')' :: rest ∧ z' = skipGap rest := by
  induction hturns generalizing mid e gap with
  | @done r =>
      obtain ⟨gap₁, rest, hgap₁, rfl, rfl⟩ := exists_gap_of_spacedChar hclosing
      obtain ⟨v, rfl⟩ := (local_calls (n + 1)).1.suffix hwhole
      have hsplit : v ++ (gap₁ ++ ')' :: rest) = (v ++ gap₁) ++ ')' :: rest := by simp
      rw [hsplit] at hwhole hskip hn
      simp only [List.length_append] at hn
      have hparse := parse_of_whole hgap hgap₁ hskip (closes_closing rest)
        (by simp only [List.length_append]; omega) hwhole
      refine ⟨[gap ++ (v ++ gap₁)], rest, by simp, ?_, ?_, rfl⟩
      · exact List.forall_mem_singleton.mpr ⟨e, hparse⟩
      · simp [List.intercalate]
  | @turn r r₁ z x xs first others ih =>
      obtain ⟨c', mid', hcomma, hwhole', -⟩ := nextArgument_eq_success.mp first
      obtain ⟨gap₁, rest₁, hgap₁, rfl, rfl⟩ := exists_gap_of_spacedChar hcomma
      obtain ⟨v, rfl⟩ := (local_calls (n + 1)).1.suffix hwhole
      have hsplit : v ++ (gap₁ ++ ',' :: rest₁) = (v ++ gap₁) ++ ',' :: rest₁ := by simp
      rw [hsplit] at hwhole hskip hn
      simp only [List.length_append, List.length_cons] at hn
      have hparse := parse_of_whole hgap hgap₁ hskip (closes_comma rest₁)
        (by simp only [List.length_append]; omega) hwhole
      obtain ⟨gap₂, hgap₂, hrest₁⟩ := Text.exists_isGap rest₁
      obtain ⟨pieces, rest, hne, hpieces, htext, rfl⟩ :=
        ih hwhole' (skipGap_skipGap rest₁) hclosing hgap₂ (by rw [← hrest₁]; omega)
      refine ⟨(gap ++ (v ++ gap₁)) :: pieces, rest, by simp, ?_, ?_, rfl⟩
      · exact List.forall_mem_cons.mpr ⟨⟨e, hparse⟩, hpieces⟩
      · rw [Text.intercalate_cons_of_ne_nil _ hne, hsplit]
        rw [← hrest₁] at htext
        simp [htext]

/-- Arguments that are read come apart into conditions. -/
theorem exists_pieces_of_arguments (h : arguments (calls (n + 1)) s = .success xs r) (hxs : xs ≠ [])
    (hn : s.length ≤ n) :
    ∃ gap pieces rest, IsGap gap ∧ pieces ≠ [] ∧ (∀ a ∈ pieces, IsCondition a) ∧
      s = gap ++ '(' :: ([','].intercalate pieces ++ ')' :: rest) ∧ r = skipGap rest := by
  obtain ⟨c, mid, hopening, ⟨c', -, rfl⟩ |
    ⟨-, first, mid₁, further, mid₂, c', hfirst, -, hfurther, hclosing, -⟩⟩ :=
    arguments_eq_success.mp h
  · exact absurd rfl hxs
  obtain ⟨gap, rest₁, hgap, rfl, rfl⟩ := exists_gap_of_spacedChar hopening
  obtain ⟨gap₁, hgap₁, hrest₁⟩ := Text.exists_isGap rest₁
  simp only [List.length_append, List.length_cons] at hn
  obtain ⟨pieces, rest, hne, hpieces, htext, hrest⟩ :=
    exists_pieces_of_turns hfirst (skipGap_skipGap rest₁) (turns_of_repeated hfurther) hclosing
      hgap₁ (by rw [← hrest₁]; omega)
  rw [← hrest₁] at htext
  exact ⟨gap, pieces, rest, hgap, hne, hpieces, by rw [htext], hrest⟩

/-! ## Calls -/

/-- The gaps around the parts of a call. -/
structure CallGaps where
  /-- Before the name. -/
  before : List Char
  /-- Between the name and the parenthesis. -/
  between : List Char
  /-- Behind the closing parenthesis. -/
  after : List Char
  isGap_before : IsGap before
  isGap_between : IsGap between
  isGap_after : IsGap after

/-- The characters of the call of a function with arguments that are written so. -/
def CallGaps.chars (gaps : CallGaps) (name : String) (pieces : List (List Char)) : List Char :=
  gaps.before ++ (name.toList ++
    (gaps.between ++ '(' :: ([','].intercalate pieces ++ ')' :: gaps.after)))

def CallGaps.text (gaps : CallGaps) (name : String) (pieces : List (List Char)) : String :=
  String.ofList (gaps.chars name pieces)

theorem CallGaps.starts (gaps : CallGaps) (hname : IsWord name.toList) (pieces : List (List Char)) :
    (Token.word name).Starts (skipGap (gaps.chars name pieces))
      (gaps.between ++ '(' :: ([','].intercalate pieces ++ ')' :: gaps.after)) := by
  have hskip : skipGap (gaps.chars name pieces) = name.toList ++
      (gaps.between ++ '(' :: ([','].intercalate pieces ++ ')' :: gaps.after)) := by
    obtain ⟨d, w, hw, hd, -⟩ := hname
    rw [CallGaps.chars, Text.skipGap_append gaps.isGap_before, hw]
    exact Text.skipGap_cons (Token.isGap_of_isAlphabetic hd) _
  refine nameChars_eq_success.mpr ⟨hname, hskip, fun d hd => ?_⟩
  cases hbetween : gaps.between with
  | nil =>
      rw [hbetween] at hd
      obtain rfl := Option.some.inj hd
      decide
  | cons g gap =>
      rw [hbetween] at hd
      obtain rfl := Option.some.inj hd
      exact Text.isNameChar_of_isGap (gaps.isGap_between g (by simp [hbetween]))

/-- Where a word stands with arguments behind it, an atom is the function applied to them. -/
theorem atom_eq_success_of_arguments {mid : List Char}
    (hstarts : (Token.word name).Starts (skipGap s) mid)
    (hreserved : name = "is" ∨ name.toList ∉ reserved) (hargs : arguments inner mid = .success xs r)
    {z : List Char} :
    atom inner s = .success e z ↔ call name xs = .ok e ∧ skipGap r = z := by
  have hname : functionName (skipGap s) = .success name mid :=
    functionName_eq_success.mpr ⟨hstarts, hreserved⟩
  have hopening : (spacedChar '(').accepts mid = true := by
    obtain ⟨c, rest, hc, -⟩ := arguments_eq_success.mp hargs
    exact accepts_of_success hc
  rw [atom_eq_success_of_word hstarts]
  constructor
  · rintro ⟨rest, hword, rfl⟩
    obtain ⟨name', mid', hname', h⟩ := word_eq_success.mp hword
    obtain ⟨rfl, rfl⟩ := Outcome.success.inj (hname.symm.trans hname')
    obtain ⟨-, args, hargs', hcall⟩ | ⟨hnone, -⟩ := h
    · obtain ⟨rfl, rfl⟩ := Outcome.success.inj (hargs.symm.trans hargs')
      exact ⟨hcall, rfl⟩
    · rw [hopening] at hnone
      cases hnone
  · rintro ⟨hcall, rfl⟩
    exact ⟨r, word_of_call hstarts hreserved hopening hargs hcall, rfl⟩

/-- The call of a function with conditions as arguments is read as the function applied to what they
are read as. -/
theorem CallGaps.exists_parse_text (gaps : CallGaps) (hname : IsWord name.toList)
    (hreserved : name = "is" ∨ name.toList ∉ reserved) (hne : pieces ≠ [])
    (hpieces : ∀ a ∈ pieces, IsCondition a) :
    ∃ xs, List.Forall₂ ReadAs pieces xs ∧
      ∀ e, parse (gaps.text name pieces) = .ok e ↔ call name xs = .ok e := by
  have hlength : ∀ a ∈ pieces, a.length + 2 ≤ (gaps.chars name pieces).length := by
    intro a ha
    have hle := Text.length_le_intercalate ',' ha
    simp only [CallGaps.chars, List.length_append, List.length_cons]
    omega
  obtain ⟨m, hm⟩ : ∃ m, (gaps.chars name pieces).length = m + 1 := by
    obtain ⟨a, ha⟩ := List.exists_mem_of_ne_nil pieces hne
    have hle := hlength a ha
    exact Nat.exists_eq_succ_of_ne_zero (by omega)
  obtain ⟨xs, hxs, harguments⟩ := exists_arguments (n := m) hne hpieces
    (fun a ha => by have hle := hlength a ha; omega) gaps.isGap_between gaps.after
  rw [Text.skipGap_eq_nil_iff.mpr gaps.isGap_after] at harguments
  refine ⟨xs, hxs, fun e => ?_⟩
  have hstarts := gaps.starts hname pieces
  have hminus : (spacedChar '-').Refuses (skipGap (gaps.chars name pieces)) := by
    rw [refuses_spaced, skipGap_skipGap]
    exact refuses_char_of_kind hstarts (by simp [Token.kind]; decide)
  have hwidens := widens_calls (m + 1) hminus
  rw [← skipGap_skipGap] at hstarts
  have hatom (e : Expr) (z : List Char) :
      atom (calls (m + 1)) (skipGap (gaps.chars name pieces)) = .success e z ↔
        call name xs = .ok e ∧ skipGap [] = z :=
    atom_eq_success_of_arguments hstarts hreserved harguments
  rw [CallGaps.text, parse_ofList_iff (n := m + 1) (by omega)]
  constructor
  · rintro ⟨gap, hwhole, -⟩
    obtain ⟨first, mid, hfirst, -⟩ := hwidens.begins hwhole
    obtain ⟨hcall, rfl⟩ := (hatom _ _).mp hfirst
    obtain ⟨rfl, -⟩ := Outcome.success.inj ((hwidens.alone hfirst).symm.trans hwhole)
    exact hcall
  · intro hcall
    exact ⟨[], hwidens.alone ((hatom _ _).mpr ⟨hcall, rfl⟩), Text.isGap_nil⟩

end

end Credence.Expr
