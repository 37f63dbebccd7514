import Credence.Proofs.Formula.Spelling
import Credence.Proofs.Parsing.Outcome

/-!
# What the rules write is read

From the strongest level down to sums: if an operand stands next, and then something at which it
stops, the parser of its level succeeds with the formula and skips the gap behind it (`Reads`).  The
levels that group to the left are loops, while the formulas grow to the left; so a loop is followed
along the left spine of the formula, and each node adds one turn at the end (`Approaches`).

`calls n` is a matter of length: each nested call stands behind a character.
-/

namespace Credence.Formula

open Grammar Credence.Parser
open Text (IsGap isGap skipGap skipGap_skipGap)

variable {free : Bool} {inner : Calls} {n k : Nat} {f : Formula} {s r u rest : List Char}
  {op : Operation}

/-! ## Atoms -/

theorem not_isAlpha_of_isDigit {c : Char} (hc : Decimal.isDigit c = true) : c.isAlpha = false := by
  simp only [Decimal.isDigit, Bool.and_eq_true, decide_eq_true_eq, Char.le_def,
    UInt32.le_iff_toNat_le] at hc
  have hnine : '9'.val.toNat = 57 := rfl
  have hupper : 'A'.val.toNat = 65 := rfl
  have hlower : 'a'.val.toNat = 97 := rfl
  simp only [Char.isAlpha, Char.isUpper, Char.isLower, Bool.or_eq_false_iff, Bool.and_eq_false_iff,
    decide_eq_false_iff_not, UInt32.le_iff_toNat_le, ge_iff_le]
  omega

theorem isAlphanum_of_isDigit {c : Char} (hc : Decimal.isDigit c = true) : c.isAlphanum = true := by
  have hdigit : c.isDigit = true := hc
  simp [Char.isAlphanum, hdigit]

theorem literal_eq_success :
    literal s = .success f r ↔ ∃ digits x, digits ≠ [] ∧
      (∀ c ∈ digits, Decimal.isDigit c = true ∨ c = '.') ∧ Decimal.readChars? digits = some x ∧
      s = digits ++ r ∧ (∀ c ∈ r.head?, Decimal.isDigit c = false ∧ c ≠ '.') ∧ f = .number x := by
  have hsome (digits r : List Char) :
      (someWhere (fun c => Decimal.isDigit c || c = '.') : Parser Empty _) s = .success digits r ↔
        digits ≠ [] ∧ s = digits ++ r ∧ (∀ c ∈ digits, Decimal.isDigit c = true ∨ c = '.') ∧
          ∀ c ∈ r.head?, Decimal.isDigit c = false ∧ c ≠ '.' := by
    rw [someWhere_eq_success]
    simp only [Bool.or_eq_true, decide_eq_true_eq, Bool.or_eq_false_iff, decide_eq_false_iff_not,
      ne_eq]
  unfold literal
  cases h : (someWhere (fun c => Decimal.isDigit c || c = '.') : Parser Empty _) s with
  | success digits rest =>
      obtain ⟨hne, rfl, hall, hedge⟩ := (hsome _ _).mp h
      constructor
      · intro hread
        dsimp only at hread
        split at hread
        · rename_i x hx
          obtain ⟨rfl, rfl⟩ := Outcome.success.inj hread
          exact ⟨digits, x, hne, hall, hx, rfl, hedge, rfl⟩
        · cases hread
      · rintro ⟨digits', x, hne', hall', hx, hs, hedge', rfl⟩
        have h' := (hsome _ _).mpr ⟨hne', hs, hall', hedge'⟩
        obtain ⟨rfl, rfl⟩ := Outcome.success.inj (h.symm.trans h')
        simp only [hx]
  | refusal place reason =>
      refine ⟨nofun, ?_⟩
      rintro ⟨digits, x, hne, hall, hx, hs, hedge, rfl⟩
      cases h.symm.trans ((hsome _ _).mpr ⟨hne, hs, hall, hedge⟩)
  | failure place reason =>
      refine ⟨nofun, ?_⟩
      rintro ⟨digits, x, hne, hall, hx, hs, hedge, rfl⟩
      cases h.symm.trans ((hsome _ _).mpr ⟨hne, hs, hall, hedge⟩)

theorem refuses_literal (h : ∀ c ∈ s.head?, Decimal.isDigit c = false ∧ c ≠ '.') :
    literal.Refuses s := by
  have hrefuses :
      (someWhere (fun c => Decimal.isDigit c || c = '.') : Parser Empty _).Refuses s := by
    rw [refuses_someWhere]
    intro c hc
    simpa using h c hc
  obtain ⟨place, reason, hrefuses⟩ := hrefuses
  exact ⟨place, reason, by simp [literal, hrefuses]⟩

theorem letter_eq_success :
    letter s = .success f r ↔ ∃ c, s = c :: r ∧ c.isAlpha = true ∧
      (∀ d ∈ r.head?, d.isAlphanum = false) ∧ f = .var c := by
  simp only [letter, bind_eq_success, charWhere_eq_success, notAhead_eq_success, accepts_charWhere,
    pure_eq_success]
  constructor
  · rintro ⟨c, rest, ⟨rfl, hc⟩, -, r', ⟨rfl, hedge⟩, rfl, rfl⟩
    exact ⟨c, rfl, hc, hedge, rfl⟩
  · rintro ⟨c, rfl, hc, hedge, rfl⟩
    exact ⟨c, r, ⟨rfl, hc⟩, (), r, ⟨rfl, hedge⟩, rfl, rfl⟩

theorem enclosed_eq_success :
    enclosed inner s = .success f r ↔ ∃ t mid rest, s = '(' :: t ∧ inner.sum t = .success f mid ∧
      skipGap mid = ')' :: rest ∧ r = skipGap rest := by
  simp only [enclosed, bind_eq_success, char_eq_success, committed_eq_success, spaced_eq_success,
    pure_eq_success]
  constructor
  · rintro ⟨-, t, ⟨rfl, -⟩, g, mid, hsum, -, r', ⟨rest, ⟨hclosing, -⟩, rfl⟩, rfl, rfl⟩
    exact ⟨t, mid, rest, rfl, hsum, hclosing, rfl⟩
  · rintro ⟨t, mid, rest, rfl, hsum, hclosing, rfl⟩
    exact ⟨'(', t, ⟨rfl, rfl⟩, f, mid, hsum, ')', skipGap rest, ⟨rest, ⟨hclosing, rfl⟩, rfl⟩,
      rfl, rfl⟩

theorem refuses_enclosed (h : s.head? ≠ some '(') : (enclosed inner).Refuses s := by
  unfold enclosed
  rw [refuses_bind, refuses_char]
  exact .inl h

theorem atom_eq_success :
    atom inner s = .success f r ↔ ∃ rest, skipGap rest = r ∧
      (enclosed inner (skipGap s) = .success f rest ∨
        (enclosed inner).Refuses (skipGap s) ∧ (literal (skipGap s) = .success f rest ∨
          literal.Refuses (skipGap s) ∧ letter (skipGap s) = .success f rest)) := by
  simp only [atom, spaced_eq_success, orElse_eq_success]
  exact exists_congr fun rest => and_comm

/-! ## Operators -/

theorem powerSign_eq_success {x : Unit} :
    powerSign s = .success x r ↔ Operation.Stands .pow s r := by
  simp only [powerSign, orElse_eq_success, exactly_eq_success, refuses_exactly,
    Operation.stands_pow]
  constructor
  · rintro (rfl | ⟨-, rfl⟩)
    · exact .inl rfl
    · exact .inr rfl
  · rintro (rfl | rfl)
    · exact .inl rfl
    · exact .inr ⟨by simp, rfl⟩

theorem gentle_powerSign : Gentle powerSign := gentle_exactly.orElse gentle_exactly

/-- A parser takes the operators of one strength. -/
structure TakesOperators (p : Parser Empty Operation) (k : Nat) : Prop where
  gentle : Gentle p
  success_iff : ∀ {s op r}, p s = .success op r ↔ op.strength = k ∧ op.Stands s r

theorem takesOperators_sumSign : TakesOperators sumSign 0 where
  gentle := (gentle_char.bind fun _ => gentle_pure).orElse (gentle_char.bind fun _ => gentle_pure)
  success_iff {s op r} := by
    simp only [sumSign, orElse_eq_success, bind_eq_success, char_eq_success, pure_eq_success,
      refuses_bind, refuses_char, not_refuses_pure, and_false, exists_false, or_false]
    constructor
    · rintro (⟨-, -, ⟨rfl, -⟩, rfl, rfl⟩ | ⟨-, -, -, ⟨rfl, -⟩, rfl, rfl⟩)
      · exact ⟨rfl, ['+'], List.mem_cons_self, rfl, fun h => by cases h⟩
      · exact ⟨rfl, ['-'], List.mem_cons_self, rfl, fun h => by cases h⟩
    · rintro ⟨hop, hstands⟩
      cases op with
      | add =>
          obtain ⟨rfl, -⟩ := (Operation.stands_of_ne_pow (by decide)).mp hstands
          exact .inl ⟨'+', r, ⟨rfl, rfl⟩, rfl, rfl⟩
      | sub =>
          obtain ⟨rfl, -⟩ := (Operation.stands_of_ne_pow (by decide)).mp hstands
          exact .inr ⟨by simp [Operation.symbol], '-', r, ⟨rfl, rfl⟩, rfl, rfl⟩
      | mul | div | pow => cases hop

theorem takesOperators_productSign : TakesOperators productSign 1 where
  gentle := (gentle_char.bind fun _ => gentle_notAhead.bind fun _ => gentle_pure).orElse
    (gentle_char.bind fun _ => gentle_pure)
  success_iff {s op r} := by
    simp only [productSign, orElse_eq_success, bind_eq_success, char_eq_success, pure_eq_success,
      notAhead_eq_success, gentle_char.accepts_eq_false_iff, refuses_bind, refuses_char,
      not_refuses_pure, and_false, exists_false, or_false]
    constructor
    · rintro (⟨-, rest, ⟨rfl, -⟩, -, rest', ⟨rfl, hstar⟩, rfl, rfl⟩ |
        ⟨-, -, rest, ⟨rfl, -⟩, rfl, rfl⟩)
      · exact ⟨rfl, ['*'], List.mem_cons_self, rfl, fun _ => hstar⟩
      · exact ⟨rfl, ['/'], List.mem_cons_self, rfl, fun h => by cases h⟩
    · rintro ⟨hop, hstands⟩
      cases op with
      | mul =>
          obtain ⟨rfl, hstar⟩ := (Operation.stands_of_ne_pow (by decide)).mp hstands
          exact .inl ⟨'*', r, ⟨rfl, rfl⟩, (), r, ⟨rfl, hstar rfl⟩, rfl, rfl⟩
      | div =>
          obtain ⟨rfl, -⟩ := (Operation.stands_of_ne_pow (by decide)).mp hstands
          exact .inr ⟨.inl (by simp [Operation.symbol]), '/', r, ⟨rfl, rfl⟩, rfl, rfl⟩
      | add | sub | pow => cases hop

theorem Stops.refuses {p : Parser Empty Operation} (h : Stops k rest) (hp : TakesOperators p k) :
    (spaced p).Refuses (skipGap rest) := by
  rw [refuses_spaced, skipGap_skipGap, hp.gentle.refuses_iff]
  intro op r hop
  obtain ⟨hstrength, hstands⟩ := hp.success_iff.mp hop
  exact h.operator op hstrength.ge r hstands

/-! ## Powers and signs -/

theorem power_eq_success :
    power inner s = .success f r ↔ ∃ base mid, atom inner s = .success base mid ∧
      ((∃ mid' exponent, Operation.Stands .pow (skipGap mid) mid' ∧
          inner.signed (skipGap mid') = .success exponent r ∧ f = .combine .pow base exponent) ∨
        powerSign.Refuses (skipGap mid) ∧ f = base ∧ mid = r) := by
  unfold power
  rw [bind_eq_success]
  refine exists_congr fun base => exists_congr fun mid => and_congr_right fun _ => ?_
  rw [optional?_bind_eq_success]
  simp only [bind_eq_success, spaced_eq_success, committed_eq_success, powerSign_eq_success,
    refuses_bind, not_refuses_committed, and_false, exists_false, or_false, refuses_spaced,
    pure_eq_success]
  constructor
  · rintro (⟨exponent, rest, ⟨-, -, ⟨mid', hsign, rfl⟩, hexponent⟩, rfl, rfl⟩ |
      ⟨hrefuses, rfl, rfl⟩)
    · exact .inl ⟨mid', exponent, hsign, hexponent, rfl⟩
    · exact .inr ⟨hrefuses, rfl, rfl⟩
  · rintro (⟨mid', exponent, hsign, hexponent, rfl⟩ | ⟨hrefuses, rfl, rfl⟩)
    · exact .inl ⟨exponent, r, ⟨(), skipGap mid', ⟨mid', hsign, rfl⟩, hexponent⟩, rfl, rfl⟩
    · exact .inr ⟨hrefuses, rfl, rfl⟩

theorem signed_eq_success :
    signed inner s = .success f r ↔
      (∃ mid g, skipGap s = '-' :: mid ∧ inner.signed (skipGap mid) = .success g r ∧
        f = .negate g) ∨
      (skipGap s).head? ≠ some '-' ∧ power inner s = .success f r := by
  simp only [signed, orElse_eq_success, bind_eq_success, spaced_eq_success, char_eq_success,
    committed_eq_success, pure_eq_success, refuses_bind, not_refuses_committed, not_refuses_pure,
    refuses_spaced, refuses_char, and_false, exists_false, or_false]
  refine or_congr ?_ Iff.rfl
  constructor
  · rintro ⟨-, -, ⟨mid, ⟨hs, -⟩, rfl⟩, g, r', hg, rfl, rfl⟩
    exact ⟨mid, g, hs, hg, rfl⟩
  · rintro ⟨mid, g, hs, hg, rfl⟩
    exact ⟨'-', skipGap mid, ⟨mid, ⟨hs, rfl⟩, rfl⟩, g, r, hg, rfl, rfl⟩

/-! ## What is written is read -/

/-- A parser reads the operands of a strength that take at most a number of characters. -/
def Reads (free : Bool) (p : Rule) (k n : Nat) : Prop :=
  ∀ {f u s rest}, Spells free k f u → u.length ≤ n → skipGap s = u ++ rest → Stops k rest →
    p s = .success f (skipGap rest)

theorem reads_atom (hinner : Reads free inner.sum 0 n) : Reads free (atom inner) 4 (n + 1) := by
  intro f u s rest h hn hs hstops
  rw [atom_eq_success, hs]
  cases h with
  | number hdigits =>
      obtain ⟨hne, hall, hread⟩ := hdigits.reads
      refine ⟨rest, rfl, .inr ⟨refuses_enclosed ?_, .inl ?_⟩⟩
      · rw [List.head?_append_of_ne_nil _ hne]
        intro hhead
        exact absurd (hall _ (List.mem_of_mem_head? hhead)) (by decide)
      · refine literal_eq_success.mpr ⟨u, _, hne, hall, hread, rfl, fun c hc => ?_, rfl⟩
        obtain ⟨halnum, hpoint⟩ := hstops.edge c hc
        refine ⟨?_, hpoint⟩
        cases hdigit : Decimal.isDigit c with
        | false => rfl
        | true => exact nomatch (isAlphanum_of_isDigit hdigit).symm.trans halnum
  | @var _ c hc =>
      refine ⟨rest, rfl, .inr ⟨refuses_enclosed ?_, .inr ⟨refuses_literal ?_, ?_⟩⟩⟩
      · simpa using ne_of_isAlpha hc (by decide)
      · intro d hd
        obtain rfl := Option.some.inj hd
        refine ⟨?_, ne_of_isAlpha hc (by decide)⟩
        cases hdigit : Decimal.isDigit c with
        | false => rfl
        | true => exact nomatch hc.symm.trans (not_isAlpha_of_isDigit hdigit)
      · exact letter_eq_success.mpr ⟨c, rfl, hc, fun d hd => (hstops.edge d hd).1, rfl⟩
  | @enclosed _ _ u before after hweaker hbefore hafter inner' =>
      have hread : inner.sum (before ++ u ++ after ++ ')' :: rest) = .success f (')' :: rest) := by
        have hinside := hinner (s := before ++ u ++ after ++ ')' :: rest) inner' ?_ ?_
          (stops_closing hafter 0 rest)
        · rwa [Text.skipGap_append hafter, Text.skipGap_cons (by decide)] at hinside
        · simp only [List.length_append, List.length_cons] at hn
          omega
        · rw [List.append_assoc, List.append_assoc, Text.skipGap_append hbefore,
            inner'.skipGap_append]
      refine ⟨skipGap rest, skipGap_skipGap rest, .inl (enclosed_eq_success.mpr
        ⟨before ++ u ++ after ++ ')' :: rest, ')' :: rest, rest, by simp, hread,
          Text.skipGap_cons (by decide) _, rfl⟩)⟩
  | negate hk hgap inner' => omega
  | @combine _ op _ _ _ _ _ _ _ hk => cases op <;> exact absurd hk (by decide)

theorem reads_power (hinner : Reads free inner.sum 0 n) (hsigned : Reads free inner.signed 2 n) :
    Reads free (power inner) 3 (n + 1) := by
  intro f u s rest h hn hs hstops
  have hatom : Reads free (atom inner) 4 (n + 1) := reads_atom hinner
  obtain h | hnode := h.stronger_or_node
  · refine power_eq_success.mpr ⟨f, skipGap rest, hatom h hn hs (hstops.mono (by decide)),
      .inr ⟨?_, rfl, rfl⟩⟩
    rw [skipGap_skipGap, gentle_powerSign.refuses_iff]
    intro _ r hsign
    exact hstops.operator .pow le_rfl r (powerSign_eq_success.mp hsign)
  · cases hnode with
    | negate hk hgap inner' => cases hk
    | @combine op l g u v before after sign hop hsign hbefore hafter hleft hright =>
        obtain rfl : op = .pow := by cases op <;> first | rfl | cases hop
        have hstands := stands_append hsign hafter hright rest
        have hlength := hstands.length_lt
        simp only [List.length_append] at hn hlength
        have hbase : atom inner s = .success l (sign ++ (after ++ v ++ rest)) := by
          rw [← hstands.skipGap_eq, ← Text.skipGap_append hbefore]
          refine hatom hleft (by omega) (by simp [hs]) ?_
          exact stops_operator hbefore hstands (by decide)
        refine power_eq_success.mpr ⟨l, _, hbase, .inl ⟨after ++ v ++ rest, g, ?_, ?_, rfl⟩⟩
        · rwa [hstands.skipGap_eq]
        · refine hsigned hright (by omega) ?_ hstops.of_three
          rw [skipGap_skipGap, List.append_assoc, Text.skipGap_append hafter, hright.skipGap_append]

theorem reads_signed (hinner : Reads free inner.sum 0 n) (hsigned : Reads free inner.signed 2 n) :
    Reads free (signed inner) 2 (n + 1) := by
  intro f u s rest h hn hs hstops
  obtain h | hnode := h.stronger_or_node
  · have hpower := reads_power hinner hsigned h hn hs (hstops.mono (by decide))
    refine signed_eq_success.mpr (.inr ⟨?_, hpower⟩)
    obtain ⟨c, w, rfl, -, -, hminus⟩ := h.head
    rw [hs]
    simpa using hminus le_rfl
  · cases hnode with
    | @negate g u gap hk hgap inner' =>
        simp only [List.length_cons, List.length_append] at hn
        have hinside : inner.signed (skipGap (gap ++ u ++ rest)) = .success g (skipGap rest) := by
          refine hsigned inner' (by omega) ?_ hstops
          rw [skipGap_skipGap, List.append_assoc, Text.skipGap_append hgap, inner'.skipGap_append]
        exact signed_eq_success.mpr (.inl ⟨gap ++ u ++ rest, g, hs, hinside, rfl⟩)
    | @combine op _ _ _ _ _ _ _ hop => cases op <;> cases hop

/-! ## Operators that group to the left -/

section

variable {operand : Rule} {operator : Parser Empty Operation}

theorem further_eq_success {x : Operation × Formula} :
    further operand operator s = .success x r ↔ ∃ mid, operator (skipGap s) = .success x.1 mid ∧
      operand (skipGap mid) = .success x.2 r := by
  simp only [further, bind_eq_success, spaced_eq_success, committed_eq_success, pure_eq_success]
  constructor
  · rintro ⟨o, -, ⟨mid, ho, rfl⟩, g, r', hg, rfl, rfl⟩
    exact ⟨mid, ho, hg⟩
  · rintro ⟨mid, ho, hg⟩
    exact ⟨x.1, skipGap mid, ⟨mid, ho, rfl⟩, x.2, r, hg, rfl, rfl⟩

/-- Up to a node on the left spine of a formula, an operand is read and then some turns, each of
which takes a character at least. -/
def Approaches (operand : Rule) (operator : Parser Empty Operation) (s : List Char) (f : Formula)
    (r : List Char) : Prop :=
  ∃ first mid steps, operand s = .success first mid ∧ Turns (further operand operator) mid steps r ∧
    steps.length + r.length ≤ mid.length ∧
    f = steps.foldl (fun left x => .combine x.1 left x.2) first

theorem Approaches.turn {l g : Formula} {mid : List Char} (h : Approaches operand operator s l mid)
    (hturn : further operand operator mid = .success (op, g) r) (hr : r.length < mid.length) :
    Approaches operand operator s (.combine op l g) r := by
  obtain ⟨first, start, steps, hfirst, hturns, hlength, rfl⟩ := h
  refine ⟨first, start, steps ++ [(op, g)], hfirst, hturns.concat hturn, ?_, ?_⟩
  · simp only [List.length_append, List.length_singleton]
    omega
  · rw [List.foldl_append, List.foldl_cons, List.foldl_nil]

/-- A formula of operators of one strength is an operand with turns behind it. -/
theorem Spells.approaches (hoperand : Reads free operand (k + 1) n)
    (hoperator : TakesOperators operator k) (hk : k ≤ 1) (h : Spells free k f u) (hn : u.length ≤ n)
    (hs : skipGap s = u ++ rest) (hstops : Stops (k + 1) rest) :
    Approaches operand operator s f (skipGap rest) := by
  induction f generalizing u rest with
  | combine op l g ihl ihg =>
      obtain h | hnode := h.stronger_or_node
      · exact ⟨_, _, [], hoperand h hn hs hstops, .done, by simp, rfl⟩
      cases hnode with
      | @combine _ _ _ u v before after sign hop hsign hbefore hafter hleft hright =>
          rw [Operation.left_eq (hop.trans_le hk), hop] at hleft
          rw [Operation.right_eq (hop.trans_le hk), hop] at hright
          have hstands := stands_append hsign hafter hright rest
          have hlength := hstands.length_lt
          simp only [List.length_append] at hn hlength
          have hl : Approaches operand operator s l (sign ++ (after ++ v ++ rest)) := by
            rw [← hstands.skipGap_eq, ← Text.skipGap_append hbefore]
            exact ihl hleft (by omega) (by simp [hs]) (stops_operator hbefore hstands (by omega))
          have hg : operand (skipGap (after ++ v ++ rest)) = .success g (skipGap rest) := by
            refine hoperand hright (by omega) ?_ hstops
            rw [skipGap_skipGap, List.append_assoc, Text.skipGap_append hafter,
              hright.skipGap_append]
          refine hl.turn (further_eq_success.mpr ⟨after ++ v ++ rest, ?_, hg⟩) ?_
          · rw [hstands.skipGap_eq]
            exact hoperator.success_iff.mpr ⟨hop, hstands⟩
          · have hle := Text.length_skipGap_le rest
            simp only [List.length_append]
            omega
  | number x | var c | negate g ih =>
      obtain h | hnode := h.stronger_or_node
      · exact ⟨_, _, [], hoperand h hn hs hstops, .done, by simp, rfl⟩
      · cases hnode <;> omega

theorem reads_leftGrouped (hoperand : Reads free operand (k + 1) n)
    (hoperator : TakesOperators operator k) (hk : k ≤ 1) :
    Reads free (leftGrouped .combine operand operator) k n := by
  intro f u s rest h hn hs hstops
  obtain ⟨first, mid, steps, hfirst, hturns, hlength, rfl⟩ :=
    h.approaches hoperand hoperator hk hn hs (hstops.mono (Nat.le_succ k))
  have hrefuses : (further operand operator).Refuses (skipGap rest) := by
    rw [refuses_bind]
    exact .inl (hstops.refuses hoperator)
  exact leftGrouped_eq_success.mpr
    ⟨first, mid, steps, hfirst, hturns.repeated hrefuses (by omega), rfl⟩

end

/-- Each nested call has a character less to read than there are calls left. -/
theorem reads_calls (n : Nat) :
    Reads free (calls n).sum 0 n ∧ Reads free (calls n).signed 2 n := by
  induction n with
  | zero =>
      constructor <;>
      · intro f u s rest h hn hs hstops
        exact absurd h.length_pos (by omega)
  | succ n ih =>
      obtain ⟨hsum, hsigned⟩ := ih
      have hoperand : Reads free (signed (calls n)) 2 (n + 1) := reads_signed hsum hsigned
      have hproduct : Reads free (product (calls n)) 1 (n + 1) :=
        reads_leftGrouped hoperand takesOperators_productSign le_rfl
      exact ⟨reads_leftGrouped hproduct takesOperators_sumSign (Nat.zero_le 1), hoperand⟩

/-! ## Whole texts -/

theorem parse_eq_ok {source : List Char} :
    parse source = .ok f ↔ ∃ r, (calls (source.length + 1)).sum (skipGap source) = .success f r ∧
      skipGap r = [] := by
  have hwhole (r : List Char) : whole source.length source = .success f r ↔
      r = [] ∧ ∃ rest, (calls (source.length + 1)).sum (skipGap source) = .success f rest ∧
        skipGap rest = [] := by
    rw [whole, toEnd_eq_success, spaced_eq_success, and_comm]
  unfold parse
  cases h : whole source.length source with
  | success g r =>
      constructor
      · intro hg
        obtain rfl := Except.ok.inj hg
        exact ((hwhole r).mp h).2
      · intro hrest
        obtain ⟨rfl, rfl⟩ := Outcome.success.inj (h.symm.trans ((hwhole []).mpr ⟨rfl, hrest⟩))
        rfl
  | refusal place reason | failure place reason =>
      refine ⟨nofun, fun hrest => ?_⟩
      cases h.symm.trans ((hwhole []).mpr ⟨rfl, hrest⟩)

/-- What the rules write is parsed as the formula, with any gaps around it. -/
theorem parse_of_spells {before after : List Char} (hbefore : IsGap before) (hafter : IsGap after)
    (h : Spells free 0 f u) : parse (before ++ u ++ after) = .ok f := by
  have hs : skipGap (skipGap (before ++ u ++ after)) = u ++ after := by
    rw [skipGap_skipGap, List.append_assoc, Text.skipGap_append hbefore, h.skipGap_append]
  have hlength : u.length ≤ (before ++ u ++ after).length + 1 := by
    simp only [List.length_append]
    omega
  have hread := (reads_calls _).1 h hlength hs (stops_of_isGap hafter 0)
  refine parse_eq_ok.mpr ⟨_, hread, ?_⟩
  rw [skipGap_skipGap]
  exact Text.skipGap_eq_nil_iff.mpr hafter

end Credence.Formula
