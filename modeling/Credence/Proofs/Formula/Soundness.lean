import Credence.Proofs.Formula.Reading

/-!
# What is read is written by the rules

The other direction: each level is followed once more, now from its outcome to the rule (`Takes`).
Parentheses may stand anywhere and numbers need not be written as they are printed, so this ends in
the free rules, and the parser takes exactly what they write.
-/

namespace Credence.Formula

open Grammar Credence.Parser
open Text (IsGap isGap skipGap skipGap_skipGap)

variable {inner : Calls} {k : Nat} {f : Formula} {s r u rest : List Char}

/-! ## Levels -/

/-- What a parser takes writes the formula with a strength, and the gap behind is skipped. -/
def Takes (p : Rule) (k : Nat) : Prop :=
  ∀ {s f r}, p s = .success f r →
    ∃ u rest, skipGap s = u ++ rest ∧ r = skipGap rest ∧ Spells true k f u

theorem takes_atom (hinner : Takes inner.sum 0) : Takes (atom inner) 4 := by
  intro s f r h
  obtain ⟨rest, rfl, h | ⟨-, h | ⟨-, h⟩⟩⟩ := atom_eq_success.mp h
  · obtain ⟨t, mid, rest', hs, hsum, hclosing, rfl⟩ := enclosed_eq_success.mp h
    obtain ⟨u, rest'', ht, rfl, hu⟩ := hinner hsum
    obtain ⟨before, hbefore, heq⟩ := Text.exists_isGap t
    obtain ⟨after, hafter, heq'⟩ := Text.exists_isGap rest''
    rw [skipGap_skipGap] at hclosing
    rw [ht, heq', hclosing] at heq
    refine ⟨_, rest', ?_, skipGap_skipGap rest', .enclosed (.inl rfl) hbefore hafter hu⟩
    rw [hs, heq]
    simp
  · obtain ⟨digits, x, hne, hall, hread, hs, -, rfl⟩ := literal_eq_success.mp h
    exact ⟨digits, rest, hs, rfl, .number (.inr ⟨rfl, hne, hall, hread⟩)⟩
  · obtain ⟨c, hs, hc, -, rfl⟩ := letter_eq_success.mp h
    exact ⟨[c], rest, hs, rfl, .var hc⟩

theorem takes_power (hinner : Takes inner.sum 0) (hsigned : Takes inner.signed 2) :
    Takes (power inner) 3 := by
  intro s f r h
  obtain ⟨base, mid, hbase, ⟨mid', exponent, hstands, hexponent, rfl⟩ | ⟨-, rfl, rfl⟩⟩ :=
    power_eq_success.mp h
  · obtain ⟨u, rest, hs, rfl, hu⟩ := takes_atom hinner hbase
    obtain ⟨v, rest', hmid, rfl, hv⟩ := hsigned hexponent
    obtain ⟨sign, hsign, hrest, -⟩ := hstands
    obtain ⟨before, hbefore, heq⟩ := Text.exists_isGap rest
    obtain ⟨after, hafter, heq'⟩ := Text.exists_isGap mid'
    rw [skipGap_skipGap] at hrest hmid
    rw [hmid] at heq'
    refine ⟨_, rest', ?_, rfl, .combine le_rfl hsign hbefore hafter hu hv⟩
    rw [hs, heq, hrest, heq']
    simp
  · obtain ⟨u, rest, hs, rfl, hu⟩ := takes_atom hinner hbase
    exact ⟨u, rest, hs, rfl, hu.weaken (by decide)⟩

theorem takes_signed (hinner : Takes inner.sum 0) (hsigned : Takes inner.signed 2) :
    Takes (signed inner) 2 := by
  intro s f r h
  obtain ⟨mid, g, hs, hg, rfl⟩ | ⟨-, h⟩ := signed_eq_success.mp h
  · obtain ⟨u, rest, hmid, rfl, hu⟩ := hsigned hg
    obtain ⟨gap, hgap, heq⟩ := Text.exists_isGap mid
    rw [skipGap_skipGap] at hmid
    rw [hmid] at heq
    refine ⟨_, rest, ?_, rfl, .negate le_rfl hgap hu⟩
    rw [hs, heq]
    simp
  · obtain ⟨u, rest, hs, rfl, hu⟩ := takes_power hinner hsigned h
    exact ⟨u, rest, hs, rfl, hu.weaken (by decide)⟩

section

variable {operand : Rule} {operator : Parser Empty Operation}

/-- Each turn adds an operator and its right operand. -/
theorem Takes.turns (hoperand : Takes operand (k + 1)) (hoperator : TakesOperators operator k)
    (hk : k ≤ 1) {steps : List (Operation × Formula)} {mid : List Char}
    (h : Turns (further operand operator) mid steps r) (hu : Spells true k f u)
    (hs : skipGap s = u ++ rest) (hmid : mid = skipGap rest) :
    ∃ u' rest', skipGap s = u' ++ rest' ∧ r = skipGap rest' ∧
      Spells true k (steps.foldl (fun left x => .combine x.1 left x.2) f) u' := by
  induction h generalizing f u rest with
  | done => exact ⟨u, rest, hs, hmid, hu⟩
  | @turn mid r₁ r x steps first others ih =>
      obtain ⟨mid', hsign, hright⟩ := further_eq_success.mp first
      obtain ⟨hop, sign, hmem, hrest, -⟩ := hoperator.success_iff.mp hsign
      obtain ⟨v, rest', hmid', rfl, hv⟩ := hoperand hright
      obtain ⟨before, hbefore, heq⟩ := Text.exists_isGap rest
      obtain ⟨after, hafter, heq'⟩ := Text.exists_isGap mid'
      rw [hmid, skipGap_skipGap] at hrest
      rw [skipGap_skipGap] at hmid'
      rw [hmid'] at heq'
      have hleft : Spells true x.1.left f u := by rwa [Operation.left_eq (hop.trans_le hk), hop]
      have hright : Spells true x.1.right x.2 v := by
        rwa [Operation.right_eq (hop.trans_le hk), hop]
      refine ih (.combine hop.ge hmem hbefore hafter hleft hright) ?_ rfl
      rw [hs, heq, hrest, heq']
      simp

theorem takes_leftGrouped (hoperand : Takes operand (k + 1)) (hoperator : TakesOperators operator k)
    (hk : k ≤ 1) : Takes (leftGrouped .combine operand operator) k := by
  intro s f r h
  obtain ⟨first, mid, steps, hfirst, hsteps, rfl⟩ := leftGrouped_eq_success.mp h
  obtain ⟨u, rest, hs, rfl, hu⟩ := hoperand hfirst
  exact hoperand.turns hoperator hk (turns_of_repeated hsteps) (hu.weaken (Nat.le_succ k)) hs rfl

end

theorem takes_calls (n : Nat) : Takes (calls n).sum 0 ∧ Takes (calls n).signed 2 := by
  induction n with
  | zero =>
      constructor <;>
      · intro s f r h
        exact absurd h not_refuse_eq_success
  | succ n ih =>
      obtain ⟨hsum, hsigned⟩ := ih
      have hoperand : Takes (signed (calls n)) 2 := takes_signed hsum hsigned
      have hproduct : Takes (product (calls n)) 1 :=
        takes_leftGrouped hoperand takesOperators_productSign le_rfl
      exact ⟨takes_leftGrouped hproduct takesOperators_sumSign (Nat.zero_le 1), hoperand⟩

/-! ## Whole texts -/

/-- The parser takes what the free rules write, with gaps around it, and nothing else. -/
theorem parse_eq_ok_iff {source : List Char} :
    parse source = .ok f ↔ ∃ before u after, IsGap before ∧ IsGap after ∧
      source = before ++ u ++ after ∧ Spells true 0 f u := by
  constructor
  · intro h
    obtain ⟨r, hr, hend⟩ := parse_eq_ok.mp h
    obtain ⟨u, rest, hs, rfl, hu⟩ := (takes_calls _).1 hr
    obtain ⟨before, hbefore, heq⟩ := Text.exists_isGap source
    rw [skipGap_skipGap] at hs hend
    rw [hs] at heq
    have hsource : source = before ++ u ++ rest := by rw [heq, List.append_assoc]
    exact ⟨before, u, rest, hbefore, Text.skipGap_eq_nil_iff.mp hend, hsource, hu⟩
  · rintro ⟨before, u, after, hbefore, hafter, rfl, hu⟩
    exact parse_of_spells hbefore hafter hu

/-! ## Gaps and parentheses around a formula -/

/-- No operand ends in a gap. -/
theorem Spells.last {free : Bool} (h : Spells free k f u) :
    ∃ w c, u = w ++ [c] ∧ isGap c = false := by
  induction h with
  | number hdigits =>
      obtain ⟨hne, hall, -⟩ := hdigits.reads
      obtain ⟨w, c, rfl⟩ := (List.eq_nil_or_concat' _).resolve_left hne
      refine ⟨w, c, rfl, ?_⟩
      obtain hc | rfl := hall c (by simp)
      · exact Text.isGap_of_isDigit hc
      · decide
  | @var k c hc => exact ⟨[], c, rfl, isGap_of_isAlpha hc⟩
  | enclosed hweaker hbefore hafter inner ih => exact ⟨_, ')', rfl, by decide⟩
  | @negate k f u gap hk hgap inner ih =>
      obtain ⟨w, c, rfl, hc⟩ := ih
      exact ⟨'-' :: (gap ++ w), c, by simp, hc⟩
  | @combine k op l r u v before after sign hk hsign hbefore hafter hleft hright ihleft ihright =>
      obtain ⟨w, c, rfl, hc⟩ := ihright
      exact ⟨u ++ before ++ sign ++ (after ++ w), c, by simp, hc⟩

/-- The gaps around a formula make no difference. -/
theorem parse_gaps_iff {before after source : List Char} (hbefore : IsGap before)
    (hafter : IsGap after) : parse (before ++ source ++ after) = .ok f ↔ parse source = .ok f := by
  rw [parse_eq_ok_iff, parse_eq_ok_iff]
  constructor
  · rintro ⟨lead, u, trail, hlead, htrail, hsource, hu⟩
    obtain ⟨w', d, hlast, hd⟩ := hu.last
    have hskip : skipGap (source ++ after) = u ++ trail := by
      rw [← Text.skipGap_append hbefore, ← List.append_assoc, hsource, List.append_assoc,
        Text.skipGap_append hlead, hu.skipGap_append]
    obtain ⟨gap, hgap, heq⟩ := Text.exists_isGap (source ++ after)
    rw [hskip, ← List.append_assoc] at heq
    obtain ⟨t, hs, ht⟩ | ⟨t, hs, ht⟩ := List.append_eq_append_iff.mp heq
    · -- the operand would end in the gap behind
      obtain rfl | ⟨t, d', rfl⟩ := List.eq_nil_or_concat' t
      · rw [List.append_nil] at hs
        exact ⟨gap, u, [], hgap, Text.isGap_nil, by rw [← hs, List.append_nil], hu⟩
      · have hend : (gap ++ w') ++ [d] = (source ++ t) ++ [d'] := by
          rw [List.append_assoc, ← hlast, hs, List.append_assoc]
        obtain ⟨-, hdd⟩ := List.append_inj' hend rfl
        obtain rfl := List.singleton_inj.mp hdd
        have hgap' := hafter d (by simp [ht])
        exact nomatch hd.symm.trans hgap'
    · exact ⟨gap, u, t, hgap, fun c hc => htrail c (by rw [ht]; exact List.mem_append_left _ hc), hs, hu⟩
  · rintro ⟨lead, u, trail, hlead, htrail, rfl, hu⟩
    exact ⟨before ++ lead, u, trail ++ after, hbefore.append hlead, htrail.append hafter, by simp, hu⟩

/-- Nor do parentheses. -/
theorem parse_enclosed {source : List Char} (h : parse source = .ok f) :
    parse ('(' :: source ++ [')']) = .ok f := by
  obtain ⟨before, u, after, hbefore, hafter, rfl, hu⟩ := parse_eq_ok_iff.mp h
  refine parse_eq_ok_iff.mpr ⟨[], _, [], Text.isGap_nil, Text.isGap_nil, ?_,
    .enclosed (.inl rfl) hbefore hafter hu⟩
  simp

end Credence.Formula
