import Credence.Proofs.Condition.Calls
import Credence.Proofs.Condition.Soundness
import Credence.Proofs.Parsing.Local

/-!
# Arguments are read by themselves

No rule of the grammar of conditions looks past the end of an argument, other than those of
parentheses and arguments, which take the end that is theirs.  So what a rule makes of a text does
not depend on which comma or closing parenthesis stands behind it, or whether any does
(`local_calls`).

The rules that call the grammar are local if what they call is.  Those of arguments need to know in
addition that what they call takes more than a gap (`Bites`): otherwise an end could stand where an
argument should.
-/

namespace Credence.Expr

open Grammar Credence.Parser
open Text (skipGap isNameChar isAlphabetic skipGap_skipGap)

variable {inner : Calls} {k : Nat} {e : Expr} {s r t v w : List Char} {ts : List Token} {c : Char}
  {loose : Bool}

/-! ## Characters that end no argument -/

theorem open_of_isNameChar (hc : isNameChar c = true) : Open c :=
  open_of_test (by decide) (by decide) hc

theorem open_of_isDigit (hc : Decimal.isDigit c = true) : Open c :=
  open_of_test (by decide) (by decide) hc

theorem open_of_isGap (hc : Text.isGap c = true) : Open c :=
  open_of_test (by decide) (by decide) hc

theorem open_of_begins (hc : (isAlphabetic c || decide (c = '_')) = true) : Open c :=
  @open_of_test (fun d => isAlphabetic d || decide (d = '_')) c (by decide) (by decide) hc

/-! ## Words -/

theorem confined_nameChars : Confined nameChars :=
  (confined_charWhere fun _ => open_of_begins).bind fun _ =>
    (confined_spanWhere fun _ => open_of_isNameChar).bind fun _ => confined_pure _

theorem confined_identifier : Confined identifier := by
  refine gentle_identifier.confined ⟨fun h => ?_, fun ht ht' h => ?_⟩ fun ht h => ?_
  · exact confined_nameChars.suffix (identifier_eq_success.mp h).1
  · obtain ⟨hname, hreserved⟩ := identifier_eq_success.mp h
    exact identifier_eq_success.mpr ⟨confined_nameChars.success ht ht' hname, hreserved⟩
  · exact confined_nameChars.inside ht (identifier_eq_success.mp h).1

theorem confined_keyword {word : String} (hword : word.toList ∈ reserved) :
    Confined (keyword word) := by
  have hall : reserved.all (fun word => word.all fun c => Open c) = true := by decide
  have hopen := List.all_eq_true.mp (List.all_eq_true.mp hall _ hword)
  exact (confined_exactly fun c hc => of_decide_eq_true (hopen c hc)).bind fun _ =>
    (confined_charWhere fun _ => open_of_isNameChar).notAhead

theorem confined_functionName : Confined functionName :=
  ((confined_keyword (by decide)).bind fun _ => confined_pure _).orElse confined_identifier

/-! ## Operators -/

theorem local_sign {text : String} (htext : (text.toList.all fun c => Open c) = true)
    (op : Operator) : Local (sign text op) :=
  (confined_exactly fun c hc => of_decide_eq_true (List.all_eq_true.mp htext c hc)).bind_local
    fun _ => (confined_pure op).toLocal

theorem local_orSign : Local orSign :=
  (confined_keyword (by decide)).bind_local fun _ => (confined_pure _).toLocal

theorem local_andSign : Local andSign :=
  (confined_keyword (by decide)).bind_local fun _ => (confined_pure _).toLocal

theorem local_comparisonSign : Local comparisonSign := by
  refine local_firstOf ?_
  simp only [List.forall_mem_cons, List.not_mem_nil, IsEmpty.forall_iff, implies_true, and_true]
  refine ⟨local_sign (by decide) _, local_sign (by decide) _, local_sign (by decide) _,
    local_sign (by decide) _, local_sign (by decide) _, local_sign (by decide) _, ?_, ?_⟩
  · exact (confined_keyword (by decide)).bind_local fun _ =>
      (confined_spanWhere fun _ => open_of_isGap).bind_local fun _ =>
        (confined_keyword (by decide)).bind_local fun _ => (confined_pure _).toLocal
  · exact (confined_keyword (by decide)).bind_local fun _ => (confined_pure _).toLocal

theorem local_sumSign : Local sumSign := by
  refine local_firstOf ?_
  simp only [List.forall_mem_cons, List.not_mem_nil, IsEmpty.forall_iff, implies_true, and_true]
  exact ⟨local_sign (by decide) _, local_sign (by decide) _⟩

theorem local_productSign : Local productSign := by
  refine local_firstOf ?_
  simp only [List.forall_mem_cons, List.not_mem_nil, IsEmpty.forall_iff, implies_true, and_true]
  refine ⟨local_sign (by decide) _, local_sign (by decide) _, ?_, local_sign (by decide) _⟩
  exact (confined_char (by decide)).bind_local fun _ =>
    (confined_char (by decide)).notAhead.bind_local fun _ => (confined_pure _).toLocal

/-! ### Operators take something -/

theorem eats_sign {text : String} (htext : text.toList ≠ []) (op : Operator) :
    Eats (sign text op) :=
  (eats_exactly htext).bind_carries fun _ => carries_pure op

theorem eats_keyword {word : String} (hword : word.toList ∈ reserved) : Eats (keyword word) := by
  have hne : word.toList ≠ [] := by
    have hall : reserved.all (fun word => !word.isEmpty) = true := by decide
    simpa using List.all_eq_true.mp hall _ hword
  exact (eats_exactly hne).bind_carries fun _ =>
    (confined_charWhere fun _ => open_of_isNameChar).notAhead.toCarries

theorem eats_wordSign {word : String} (hword : word.toList ∈ reserved) (op : Operator) :
    Eats (do keyword word; return op) :=
  (eats_keyword hword).bind_carries fun _ => carries_pure op

theorem eats_comparisonSign : Eats comparisonSign := by
  refine eats_firstOf ?_
  simp only [List.forall_mem_cons, List.not_mem_nil, IsEmpty.forall_iff, implies_true, and_true]
  refine ⟨eats_sign (by decide) _, eats_sign (by decide) _, eats_sign (by decide) _,
    eats_sign (by decide) _, eats_sign (by decide) _, eats_sign (by decide) _, ?_,
    eats_wordSign (by decide) _⟩
  exact (eats_keyword (by decide)).bind_carries fun _ =>
    (carries_spanWhere fun _ => open_of_isGap).bind fun _ =>
      (confined_keyword (by decide)).toCarries.bind fun _ => carries_pure _

theorem eats_sumSign : Eats sumSign := by
  refine eats_firstOf ?_
  simp only [List.forall_mem_cons, List.not_mem_nil, IsEmpty.forall_iff, implies_true, and_true]
  exact ⟨eats_sign (by decide) _, eats_sign (by decide) _⟩

theorem eats_productSign : Eats productSign := by
  refine eats_firstOf ?_
  simp only [List.forall_mem_cons, List.not_mem_nil, IsEmpty.forall_iff, implies_true, and_true]
  refine ⟨eats_sign (by decide) _, eats_sign (by decide) _, ?_, eats_sign (by decide) _⟩
  exact (eats_char _).bind_carries fun _ =>
    (confined_char (by decide)).notAhead.toCarries.bind fun _ => carries_pure _

/-- A level of operators is local if its operands are. -/
theorem local_level {operand : Rule Expr} {operator : Rule Operator}
    (hoperand : Local operand) (hoperator : TakesOperators operator k) (hlocal : Local operator)
    (heats : Eats operator) : Local (leftGrouped .binary operand operator) := by
  refine hoperand.leftGrouped hlocal heats ?_
  have hrefuses := hoperator.refuses (s := []) (.done rfl) (stops_nil k)
  rwa [refuses_spaced] at hrefuses

/-! ## Atoms without arguments -/

theorem local_number : Local Grammar.number := by
  have hdigits : Confined (someWhere Decimal.isDigit : Rule (List Char)) :=
    confined_someWhere fun _ => open_of_isDigit
  have hfraction : Local fractionPart :=
    (confined_char (by decide)).bind_local fun _ => hdigits.toLocal
  exact hdigits.toLocal.bind_firm (fun _ => hfraction.optional?.bind fun _ => carries_pure _)
    fun _ => (firm_optional? _).bind fun _ => firm_pure _

theorem refuses_quotation_iff :
    quotation.Refuses s ↔ ∀ c ∈ s.head?, c ≠ '\x27' ∧ c ≠ '\x22' := by
  refine ⟨fun h c hc => ?_, refuses_quotation⟩
  unfold quotation at h
  obtain h | ⟨quote, rest, -, h⟩ := refuses_bind.mp h
  · rw [refuses_orElse, refuses_char, refuses_char] at h
    refine ⟨?_, ?_⟩
    · rintro rfl
      exact h.1 hc
    · rintro rfl
      exact h.2 hc
  · have hfirm : Firm (repeated (quotedChar quote) >>= fun content =>
        expecting .unterminated (char quote) >>= fun _ =>
          (return .text (String.ofList content) : Rule Expr)) :=
      (firm_repeated _).bind fun _ => (firm_expecting _ _).bind fun _ => firm_pure _
    exact absurd h (hfirm rest)

theorem local_quotation : Local quotation where
  suffix h := by
    obtain ⟨quote, content, written, -, -, rfl, -⟩ := quotation_eq_success.mp h
    exact ⟨quote :: written ++ [quote], by simp⟩
  success {w v t t' e} ht ht' h := by
    obtain ⟨quote, content, written, hquote, hquoted, hw, he⟩ := quotation_eq_success.mp h
    have hw' : w ++ t = (quote :: written ++ quote :: v) ++ t := by simpa using hw
    rw [List.append_cancel_right hw']
    exact quotation_eq_success.mpr ⟨quote, content, written, hquote, hquoted, by simp, he⟩
  refuses {w t t'} ht ht' h := by
    rw [refuses_quotation_iff] at h ⊢
    intro c hc
    refine ⟨?_, ?_⟩
    · rintro rfl
      exact (h _ (head?_append_closes ht' (by decide) hc)).1 rfl
    · rintro rfl
      exact (h _ (head?_append_closes ht' (by decide) hc)).2 rfl

theorem local_place {slot : Slot} (hc : Open c) : Local (place c slot) :=
  (confined_char hc).bind_local fun _ => (confined_pure _).toLocal

/-! ## Arguments -/

/-- A parser takes a character that is no gap. -/
def Bites {α : Type} (p : Rule α) : Prop :=
  ∀ {s a r}, p s = .success a r → (skipGap r).length < (skipGap s).length

/-- What a parser bites out of a text in front of an end is not the end. -/
theorem Bites.skipGap_ne_nil {α : Type} {p : Rule α} {a : α} (hp : Bites p) (ht : Closes t)
    (h : p (w ++ t) = .success a (v ++ t)) : skipGap w ≠ [] := by
  intro hnil
  have hlt := hp h
  rw [skipGap_append_closes ht, skipGap_append_closes ht, hnil, List.nil_append,
    List.length_append] at hlt
  omega

theorem bites_spacedChar : Bites (spacedChar c) := by
  intro s a r h
  obtain ⟨rest, hrest, rfl⟩ := spaced_eq_success.mp h
  obtain ⟨hhead, -⟩ := char_eq_success.mp hrest
  have hle := Text.length_skipGap_le rest
  rw [Text.skipGap_skipGap, hhead, List.length_cons]
  omega

theorem Scans.length_skipGap_le (h : Scans s ts r) : (skipGap r).length ≤ (skipGap s).length := by
  induction h with
  | done h => rw [h]
  | @token s mid r t ts first others ih =>
      have hlt := first.length_lt
      have hle := Text.length_skipGap_le mid
      omega

theorem Scans.length_skipGap_lt (h : Scans s ts r) (hts : ts ≠ []) :
    (skipGap r).length < (skipGap s).length := by
  cases h with
  | done h => exact absurd rfl hts
  | @token s mid r t ts first others =>
      have hlt := first.length_lt
      have hmid := Text.length_skipGap_le mid
      have hle := others.length_skipGap_le
      omega

theorem Writes.bites {p : Rule Expr} (h : Writes p k) : Bites p := by
  intro s e r hp
  obtain ⟨ts, hts, hscans⟩ := h hp
  exact hscans.length_skipGap_lt hts.ne_nil

theorem carries_nextArgument (hwhole : Carries inner.whole) : Carries (nextArgument inner) :=
  (carries_char ',').spaced.bind fun _ => hwhole.withSource.committed

theorem eats_nextArgument (hwhole : Carries inner.whole) : Eats (nextArgument inner) :=
  (eats_char ',').spaced.bind_carries fun _ => hwhole.withSource.committed

/-- Behind an argument stands a comma, or no further one. -/
theorem refuses_nextArgument_iff :
    (nextArgument inner).Refuses s ↔ (skipGap s).head? ≠ some ',' := by
  unfold nextArgument
  rw [refuses_bind, refuses_spaced, refuses_char]
  simp

theorem furtherArguments_eq_success (hwhole : Carries inner.whole)
    {xs : List (List Char × Expr)} :
    repeated (nextArgument inner) s = .success xs r ↔
      Turns (nextArgument inner) s xs r ∧ (skipGap r).head? ≠ some ',' := by
  rw [repeated_eq_success (eats_nextArgument hwhole), refuses_nextArgument_iff]
  exact refuses_nextArgument_iff.mpr (by simp [skipGap])

/-- Only a missing parenthesis is refused; what is wrong behind it is a failure. -/
theorem refuses_arguments_iff : (arguments inner).Refuses s ↔ (spacedChar '(').Refuses s := by
  unfold arguments
  rw [refuses_bind]
  refine ⟨fun h => ?_, .inl⟩
  obtain h | ⟨c, rest, -, h⟩ := h
  · exact h
  · refine absurd h ((firm_optional? _).bind (fun closed => ?_) rest)
    cases closed with
    | some _ => exact firm_pure _
    | none =>
        exact (firm_committed _).bind fun _ => (firm_repeated _).bind fun _ =>
          (firm_committed _).bind fun _ => firm_pure _

theorem carries_arguments (hwhole : Carries inner.whole) (hbites : Bites inner.whole) :
    Carries (arguments inner) where
  suffix {s xs r} h := by
    obtain ⟨c, mid, hopening, ⟨c', hclosing, -⟩ |
      ⟨-, first, mid₁, rest, mid₂, c', hfirst, -, hrest, hclosing, -⟩⟩ := arguments_eq_success.mp h
    · have hclose := (carries_char _).spaced.suffix hclosing
      exact hclose.trans ((carries_char _).spaced.suffix hopening)
    · have hturns := (turns_of_repeated hrest).suffix (carries_nextArgument hwhole)
      exact ((((carries_char _).spaced.suffix hclosing).trans hturns).trans
        (hwhole.suffix hfirst)).trans ((carries_char _).spaced.suffix hopening)
  success {w v t t' xs} ht ht' h := by
    have hparen : Confined (spacedChar '(') := (confined_char (by decide)).spaced
    have hclose : Carries (spacedChar ')') := (carries_char _).spaced
    obtain ⟨c, mid, hopening, h⟩ := arguments_eq_success.mp h
    obtain ⟨u, rfl⟩ := hparen.inside ht hopening
    have hopening' := hparen.success ht ht' hopening
    obtain ⟨c', hclosing, rfl⟩ |
      ⟨hrefuses, first, mid₁, rest, mid₂, c', hfirst, hsource, hrest, hclosing, rfl⟩ := h
    · exact arguments_eq_success.mpr
        ⟨c, u ++ t', hopening', .inl ⟨c', hclose.success ht ht' hclosing, rfl⟩⟩
    obtain ⟨hturns, hcomma⟩ := (furtherArguments_eq_success hwhole).mp hrest
    -- the parenthesis stands before the end, and so does all that comes before it
    have hle := (hclose.suffix hclosing).length_le
    have hle₂ := (hturns.suffix (carries_nextArgument hwhole)).length_le
    have hle₁ := (hwhole.suffix hfirst).length_le
    rw [List.length_append] at hle
    obtain ⟨u₁, rfl⟩ := exists_eq_append_of_suffix (hwhole.suffix hfirst) (by omega)
    obtain ⟨u₂, rfl⟩ :=
      exists_eq_append_of_suffix (hturns.suffix (carries_nextArgument hwhole)) (by omega)
    have hbehind : skipGap u₂ ≠ [] := bites_spacedChar.skipGap_ne_nil ht hclosing
    have hnonempty : skipGap u ≠ [] := hbites.skipGap_ne_nil ht hfirst
    have hwith := hwhole.withSource.success ht ht' (withSource_eq_success.mpr ⟨hfirst, hsource⟩)
    obtain ⟨hfirst', hsource'⟩ := withSource_eq_success.mp hwith
    have hturns' := hturns.success (carries_nextArgument hwhole) ht ht'
    refine arguments_eq_success.mpr ⟨c, u ++ t', hopening', .inr ⟨?_, first, u₁ ++ t', rest,
      u₂ ++ t', c', hfirst', hsource', (furtherArguments_eq_success hwhole).mpr ⟨hturns', ?_⟩,
      hclose.success ht ht' hclosing, rfl⟩⟩
    · rw [refuses_spaced, refuses_char, skipGap_append_closes ht,
        List.head?_append_of_ne_nil _ hnonempty] at hrefuses
      rwa [refuses_spaced, refuses_char, skipGap_append_closes ht',
        List.head?_append_of_ne_nil _ hnonempty]
    · rw [skipGap_append_closes ht, List.head?_append_of_ne_nil _ hbehind] at hcomma
      rwa [skipGap_append_closes ht', List.head?_append_of_ne_nil _ hbehind]

theorem local_arguments (hwhole : Carries inner.whole) (hbites : Bites inner.whole) :
    Local (arguments inner) where
  toCarries := carries_arguments hwhole hbites
  refuses {w t t'} ht ht' h := by
    rw [refuses_arguments_iff] at h ⊢
    exact (confined_char (by decide)).spaced.refuses ht ht' h

/-! ## Atoms -/

theorem local_hash (hwhole : Carries inner.whole) (hbites : Bites inner.whole) :
    Local (hash inner) := by
  have hlabel : Confined (someWhere isNameChar : Rule (List Char)) :=
    confined_someWhere fun _ => open_of_isNameChar
  have htag : Confined tagPart :=
    (confined_char (by decide)).bind fun _ => Confined.expecting _ (hlabel.bind fun _ =>
      (confined_char (by decide)).bind fun _ => confined_pure _)
  refine (confined_char (by decide)).bind_local fun _ => htag.optional?.bind_local fun tag =>
    (hlabel.expecting _).bind_local fun name => ?_
  cases tag with
  | some tag => exact (confined_pure _).toLocal
  | none =>
      exact (confined_char (by decide)).spaced.ifAhead
        ((local_arguments hwhole hbites).bind_firm (fun _ => carries_pure _) fun _ => firm_pure _)
        (confined_pure _).toLocal

/-- A word is refused if there is none, and the word `is` if no arguments follow. -/
theorem refuses_word_iff :
    (word inner).Refuses s ↔ functionName.Refuses s ∨
      ∃ mid, functionName s = .success "is" mid ∧ (spacedChar '(').accepts mid = false := by
  show (functionName >>= _).Refuses s ↔ _
  rw [refuses_bind]
  refine or_congr Iff.rfl ⟨?_, ?_⟩
  · rintro ⟨name, mid, hname, h⟩
    obtain ⟨haccepts, h⟩ | ⟨haccepts, h⟩ := refuses_ifAhead.mp h
    · obtain hrefuses | ⟨args, rest, -, hcall⟩ := refuses_bind.mp h
      · exact absurd haccepts (by simp [(refuses_arguments_iff.mp hrefuses).accepts])
      · cases hvalue : call name args with
        | ok e =>
            simp only [hvalue] at hcall
            exact absurd hcall not_refuses_pure
        | error wrong =>
            simp only [hvalue] at hcall
            obtain ⟨place, reason, hcall⟩ := hcall
            cases hcall
    · by_cases his : name = "is"
      · exact ⟨mid, his ▸ hname, haccepts⟩
      · rw [if_neg his] at h
        exact absurd h not_refuses_pure
  · rintro ⟨mid, hname, haccepts⟩
    exact ⟨"is", mid, hname, refuses_ifAhead.mpr (.inr ⟨haccepts, refuses_refuse⟩)⟩

theorem local_word (hwhole : Carries inner.whole) (hbites : Bites inner.whole) :
    Local (word inner) := by
  have hparen : Confined (spacedChar '(') := (confined_char (by decide)).spaced
  have hargs : Carries (arguments inner) := carries_arguments hwhole hbites
  refine ⟨⟨fun h => ?_, fun {w v t t' e} ht ht' h => ?_⟩, fun {w t t'} ht ht' h => ?_⟩
  · obtain ⟨name, mid, hname, ⟨-, args, hargs', -⟩ | ⟨-, -, -, rfl⟩⟩ := word_eq_success.mp h
    · exact (hargs.suffix hargs').trans (confined_functionName.suffix hname)
    · exact confined_functionName.suffix hname
  · obtain ⟨name, mid, hname, h⟩ := word_eq_success.mp h
    obtain ⟨u, rfl⟩ := confined_functionName.inside ht hname
    have hname' := confined_functionName.success ht ht' hname
    rw [hparen.accepts_eq ht ht'] at h
    refine word_eq_success.mpr ⟨name, u ++ t', hname', ?_⟩
    obtain ⟨haccepts, args, hargs', hcall⟩ | ⟨haccepts, hne, he, hu⟩ := h
    · exact .inl ⟨haccepts, args, hargs.success ht ht' hargs', hcall⟩
    · rw [List.append_cancel_right hu]
      rw [List.append_cancel_right hu] at haccepts
      exact .inr ⟨haccepts, hne, he, rfl⟩
  · rw [refuses_word_iff] at h ⊢
    obtain h | ⟨mid, hname, haccepts⟩ := h
    · exact .inl (confined_functionName.refuses ht ht' h)
    · obtain ⟨u, rfl⟩ := confined_functionName.inside ht hname
      rw [hparen.accepts_eq ht ht'] at haccepts
      exact .inr ⟨u ++ t', confined_functionName.success ht ht' hname, haccepts⟩

theorem local_enclosed (hwhole : Local inner.whole) : Local (enclosed inner) :=
  (confined_char (by decide)).bind_local fun _ => hwhole.bind_firm
    (fun _ => (carries_char _).spaced.committed.bind fun _ => carries_pure _)
    fun _ => (firm_committed _).bind fun _ => firm_pure _

theorem local_atom (hwhole : Local inner.whole) (hbites : Bites inner.whole) :
    Local (atom inner) := by
  rw [atom_eq_spaced]
  refine (local_firstOf ?_).spaced
  simp only [atoms, List.forall_mem_cons, List.not_mem_nil, IsEmpty.forall_iff, implies_true,
    and_true]
  exact ⟨local_number, local_quotation, local_place (by decide), local_place (by decide),
    local_hash hwhole.toCarries hbites, local_word hwhole.toCarries hbites, local_enclosed hwhole⟩

/-! ## Operands -/

theorem eats_access (hwhole : Carries inner.whole) (hbites : Bites inner.whole) :
    Eats (access inner) := by
  refine (eats_char _).spaced.bind_carries fun _ =>
    (confined_identifier.spaced.expecting _).toCarries.bind fun name =>
      (local_arguments hwhole hbites).optional?.bind fun args => ?_
  cases args <;> exact carries_pure _

theorem local_access (hwhole : Carries inner.whole) (hbites : Bites inner.whole) :
    Local (access inner) := by
  refine (confined_char (by decide)).spaced.bind_local fun _ =>
    (confined_identifier.spaced.expecting _).bind_local fun name =>
      ((local_arguments hwhole hbites).optional?.local (firm_optional? _)).bind_firm
        (fun args => ?_) fun args => ?_
  · cases args <;> exact carries_pure _
  · cases args <;> exact firm_pure _

theorem refuses_access_nil : (access inner).Refuses [] := by
  unfold access
  rw [refuses_bind, refuses_spaced, refuses_char]
  exact .inl (by simp [skipGap])

theorem local_subject (hwhole : Local inner.whole) (hbites : Bites inner.whole) :
    Local (subject inner) := by
  have haccess := local_access hwhole.toCarries hbites
  have heats := eats_access hwhole.toCarries hbites
  exact (local_atom hwhole hbites).bind_firm
    (fun _ => (haccess.repeated heats refuses_access_nil).bind fun _ => carries_pure _)
    fun _ => (firm_repeated _).bind fun _ => firm_pure _

theorem confined_between {mark : Rule Unit} (hmark : Confined mark) : Confined (between mark) :=
  hmark.spaced.bind fun _ => confined_identifier.spaced.bind fun _ => hmark.spaced.bind fun _ =>
    confined_pure _

theorem confined_loneEquals : Confined loneEquals :=
  (confined_char (by decide)).bind fun _ => (confined_char (by decide)).notAhead

theorem local_link : Local link :=
  ((confined_between confined_loneEquals).bind_local fun _ => (confined_pure _).toLocal).orElse
    ((confined_between (confined_exactly (by simp [Open]))).bind_local fun _ =>
      (confined_pure _).toLocal)

theorem local_relational (hwhole : Local inner.whole) (hbites : Bites inner.whole) :
    Local (relational inner) := by
  have hsubject := local_subject hwhole hbites
  refine hsubject.bind_firm (fun domain => local_link.optional?.bind fun found => ?_)
    fun domain => (firm_optional? _).bind fun found => ?_
  · cases found with
    | some found => exact hsubject.toCarries.committed.bind fun _ => carries_pure _
    | none =>
        have hbroken : Local (expecting .relationForm refuse : Rule Expr) :=
          (confined_refuse.expecting _).toLocal
        exact (confined_loneEquals.spaced.ifAhead hbroken (confined_pure domain).toLocal).toCarries
  · cases found with
    | some found => exact (firm_committed _).bind fun _ => firm_pure _
    | none =>
        intro s h
        obtain ⟨-, h⟩ | ⟨-, h⟩ := refuses_ifAhead.mp h
        · exact not_refuses_expecting h
        · exact not_refuses_pure h

theorem local_power (hwhole : Local inner.whole) (hbites : Bites inner.whole)
    (hsigned : Carries inner.signed) : Local (power inner) := by
  have hexponent : Local (spaced (exactly ['*', '*']) >>= fun _ => committed inner.signed) :=
    (confined_exactly (by simp [Open])).spaced.toLocal.bind_firm (fun _ => hsigned.committed)
      fun _ => firm_committed _
  exact (local_relational hwhole hbites).bind_firm
    (fun _ => hexponent.optional?.bind fun _ => carries_pure _)
    fun _ => (firm_optional? _).bind fun _ => firm_pure _

theorem local_signed (hwhole : Local inner.whole) (hbites : Bites inner.whole)
    (hsigned : Carries inner.signed) : Local (signed inner) :=
  ((confined_char (by decide)).spaced.toLocal.bind_firm
    (fun _ => hsigned.committed.bind fun _ => carries_pure _)
    fun _ => (firm_committed _).bind fun _ => firm_pure _).orElse
      (local_power hwhole hbites hsigned)

/-! ## The whole grammar -/

theorem bites_calls (n : Nat) : Bites (calls n).whole := Writes.bites (k := 0) (writes_calls n).1

/-- What the grammar makes of a text does not depend on what closes it. -/
theorem local_calls (n : Nat) : Local (calls n).whole ∧ Local (calls n).signed := by
  induction n with
  | zero => exact ⟨confined_refuse.toLocal, confined_refuse.toLocal⟩
  | succ n ih =>
      obtain ⟨hwhole, hsigned⟩ := ih
      have hoperand : Local (signed (calls n)) :=
        local_signed hwhole (bites_calls n) hsigned.toCarries
      have hproduct : Local (product (calls n)) :=
        local_level hoperand takesOperators_productSign local_productSign eats_productSign
      have hsum : Local (sum (calls n)) :=
        local_level hproduct takesOperators_sumSign local_sumSign eats_sumSign
      have hcomparison : Local (comparison (calls n)) :=
        local_level hsum takesOperators_comparisonSign local_comparisonSign eats_comparisonSign
      have hconjunction : Local (conjunction (calls n)) :=
        local_level hcomparison takesOperators_andSign local_andSign (eats_wordSign (by decide) _)
      exact ⟨local_level hconjunction takesOperators_orSign local_orSign
        (eats_wordSign (by decide) _), hoperand⟩

end Credence.Expr
