import Credence.Proofs.Condition.Parse
import Credence.Proofs.Decimal.Plain

/-!
# What is parsed is written by the rules

The other direction: if a parser of the grammar succeeds with a tree, then the text that it took
comes apart into tokens that write the tree, by the loose rules.  Each level is followed once more,
now from the outcome to the rule; loops add one rule for each turn.
-/

namespace Credence.Expr

open Grammar Credence.Parser
open Text (skipGap skipGap_skipGap)

variable {inner : Calls} {k : Nat} {e : Expr} {s r mid : List Char} {ts us : List Token}
  {name : String} {p : Rule Expr}

/-- What a parser makes of a text is written there, as an operand of a strength. -/
def Writes (p : Rule Expr) (k : Nat) : Prop :=
  ∀ {s e r}, p s = .success e r → ∃ ts, Spells true k e ts ∧ Scans s ts r

/-! ## Arguments -/

theorem scans_of_comma {c : Char} (h : spacedChar ',' s = .success c r) : Scans s [.mark ","] r :=
  takesMark_comma.scans h

/-- Further arguments, each behind a comma. -/
theorem spellsAll_of_turns (hinner : Writes inner.whole 0) {xs : List (List Char × Expr)}
    (h : Turns (nextArgument inner) s xs r) :
    ∃ us, SpellsAll true (xs.map (·.2)) us ∧ Scans s (separator (xs.map (·.2)) ++ us) r := by
  induction h with
  | done => exact ⟨[], .nil, .refl _⟩
  | @turn s rest r x xs first others ih =>
      obtain ⟨c, mid, hcomma, hwhole, -⟩ := nextArgument_eq_success.mp first
      obtain ⟨ts, hts, hscans⟩ := hinner hwhole
      obtain ⟨us, hus, hothers⟩ := ih
      refine ⟨ts ++ separator (xs.map (·.2)) ++ us, .cons hts hus, ?_⟩
      rw [List.append_assoc]
      exact (scans_of_comma hcomma).append (hscans.append hothers)

theorem spellsAll_of_arguments (hinner : Writes inner.whole 0) {xs : List (List Char × Expr)}
    (h : arguments inner s = .success xs r) :
    ∃ us, SpellsAll true (xs.map (·.2)) us ∧ Scans s (.mark "(" :: us ++ [.mark ")"]) r := by
  obtain ⟨c, mid, hopening, ⟨c', hclosing, rfl⟩ |
    ⟨-, first, mid₁, rest, mid₂, c', hfirst, -, hrest, hclosing, rfl⟩⟩ := arguments_eq_success.mp h
  · exact ⟨[], .nil, (takesMark_opening.scans hopening).append (takesMark_closing.scans hclosing)⟩
  · obtain ⟨ts, hts, hscans⟩ := hinner hfirst
    obtain ⟨us, hus, hothers⟩ := spellsAll_of_turns hinner (turns_of_repeated hrest)
    refine ⟨ts ++ separator (rest.map (·.2)) ++ us, .cons hts hus, ?_⟩
    have hrow : Token.mark "(" :: (ts ++ separator (rest.map (·.2)) ++ us) ++ [.mark ")"] =
        [.mark "("] ++ (ts ++ (separator (rest.map (·.2)) ++ us ++ [.mark ")"])) := by simp
    rw [hrow]
    exact (takesMark_opening.scans hopening).append
      (hscans.append (hothers.append (takesMark_closing.scans hclosing)))

/-- The last argument and those before it. -/
theorem SpellsAll.exists_concat {es : List Expr} {last : Expr}
    (h : SpellsAll true (es ++ [last]) us) :
    ∃ ts vs, SpellsAll true es ts ∧ Spells true 0 last vs ∧ us = ts ++ separator es ++ vs := by
  induction es generalizing us with
  | nil =>
      cases h with
      | cons first others =>
          cases others
          exact ⟨[], _, .nil, first, by simp [separator]⟩
  | cons e es ih =>
      cases h with
      | cons first others =>
          obtain ⟨ts, vs, hts, hvs, rfl⟩ := ih others
          refine ⟨_, vs, .cons first hts, hvs, ?_⟩
          cases es with
          | nil =>
              cases hts
              simp [separator]
          | cons e' es => simp [separator]

/-! ## Atoms -/

/-- The source of a formula: a quotation, or what stands there. -/
def sourceOf (chars : List Char) : Expr → List Char
  | .text s => s.toList
  | _ => Text.trimChars chars

theorem sourceOf_eq (chars : List Char) (last : Expr) :
    last = .text (String.ofList (sourceOf chars last)) ∨ ∀ s, last ≠ .text s := by
  cases last with
  | text s => exact .inl (by simp [sourceOf])
  | _ => exact .inr (by simp)

/-- The formula of an `f` is the last argument. -/
theorem exists_of_formulaOf {xs : List (List Char × Expr)} (h : formulaOf xs = .ok e) :
    ∃ ys chars last body, xs = ys ++ [(chars, last)] ∧
      Formula.parse (sourceOf chars last) = .ok body ∧
      body.vars.length = (ys.map (·.2)).length ∧
      e = .formula (ys.map (·.2)) body (String.ofList (sourceOf chars last)) := by
  unfold formulaOf at h
  cases hlast : xs.getLast? with
  | none =>
      rw [hlast] at h
      cases h
  | some x =>
      obtain ⟨chars, last⟩ := x
      obtain ⟨ys, rfl⟩ : ∃ ys, xs = ys ++ [(chars, last)] :=
        ⟨xs.dropLast, (List.dropLast_append_getLast? _ hlast).symm⟩
      rw [hlast, List.dropLast_concat] at h
      dsimp only at h
      split at h
      · cases h
      · rename_i body hbody
        split at h
        · rename_i hvars
          exact ⟨ys, chars, last, body, rfl, hbody, hvars, (Except.ok.inj h).symm⟩
        · cases h

/-- A function with its arguments. -/
theorem spells_of_call {xs : List (List Char × Expr)} (h : call name xs = .ok e)
    (hxs : SpellsAll true (xs.map (·.2)) us) :
    Spells true 9 e (.word name :: .mark "(" :: us ++ [.mark ")"]) := by
  unfold call at h
  split at h
  · rename_i hf
    obtain ⟨ys, chars, last, body, rfl, hbody, hvars, rfl⟩ := exists_of_formulaOf h
    rw [List.map_append] at hxs
    obtain ⟨ts, vs, hts, hvs, rfl⟩ := hxs.exists_concat
    rw [hf]
    exact .formula (by rwa [String.toList_ofList]) hvars hts hvs
      ((sourceOf_eq chars last).imp_right fun htext => ⟨rfl, htext⟩)
  · cases hfunction : Builtin.ofName? name with
    | none =>
        rw [hfunction] at h
        exact nomatch h
    | some function =>
        rw [hfunction] at h
        dsimp only at h
        split at h
        · rename_i htakes
          obtain rfl := Except.ok.inj h
          have hname : function.name = name := by
            have hfind := List.find?_some hfunction
            simpa using hfind
          rw [← hname]
          exact .builtin htakes hxs
        · exact nomatch h

theorem writes_word (hinner : Writes inner.whole 0) : Writes (word inner) 9 := by
  intro s e r h
  obtain ⟨name, mid, hname, ⟨-, args, hargs, hcall⟩ | ⟨-, hne, rfl, rfl⟩⟩ := word_eq_success.mp h
  · obtain ⟨hstarts, -⟩ := functionName_eq_success.mp hname
    obtain ⟨us, hus, hscans⟩ := spellsAll_of_arguments hinner hargs
    refine ⟨_, spells_of_call hcall hus, .token ?_ hscans⟩
    rwa [hstarts.skipGap_eq]
  · obtain ⟨hstarts, hreserved⟩ := functionName_eq_success.mp hname
    refine ⟨[.word name], .bare rfl ⟨(nameChars_eq_success.mp hstarts).1, hreserved.resolve_left hne⟩,
      .token ?_ (.refl _)⟩
    rwa [hstarts.skipGap_eq]

theorem writes_hash (hinner : Writes inner.whole 0) : Writes (hash inner) 9 := by
  intro s e r h
  obtain ⟨name, tag, mid, hparameter, h⟩ := hash_eq_success.mp h
  have hstarts : (Token.parameter name tag).Starts s mid := hparameter
  obtain ⟨hname, htag, -, -⟩ := parameter_eq_success.mp hparameter
  rw [← hstarts.skipGap_eq] at hstarts
  obtain ⟨t, rfl, rfl, rfl⟩ | ⟨rfl, h⟩ := h
  · exact ⟨_, .parameter hname htag, .token hstarts (.refl _)⟩
  · unfold untagged at h
    obtain ⟨-, h⟩ | ⟨-, h⟩ := ifAhead_eq_success.mp h
    · simp only [bind_eq_success, pure_eq_success] at h
      obtain ⟨args, r', hargs, rfl, rfl⟩ := h
      obtain ⟨us, hus, hscans⟩ := spellsAll_of_arguments hinner hargs
      exact ⟨_, .construct hname hus, .token hstarts hscans⟩
    · obtain ⟨rfl, rfl⟩ := pure_eq_success.mp h
      exact ⟨_, .parameter hname (by simp), .token hstarts (.refl _)⟩

theorem writes_enclosed (hinner : Writes inner.whole 0) : Writes (enclosed inner) 9 := by
  intro s e r h
  obtain ⟨rest, mid, c, rfl, he, hclosing⟩ := enclosed_eq_success.mp h
  obtain ⟨ts, hts, hscans⟩ := hinner he
  refine ⟨_, .enclosed hts, .token ?_ (hscans.append (takesMark_closing.scans hclosing))⟩
  rw [Text.skipGap_cons (by decide)]
  exact ⟨by decide, rfl, fun c hc => nomatch hc⟩

theorem writes_atom (hinner : Writes inner.whole 0) : Writes (atom inner) 9 := by
  intro s e r h
  rw [atom_eq_spaced] at h
  obtain ⟨r', hatom, rfl⟩ := spaced_eq_success.mp h
  obtain ⟨before, p, after, hatoms, -, hp⟩ := firstOf_eq_success.mp hatom
  have hmem : p ∈ atoms inner := by simp [hatoms]
  have htoken {t : Token} {e : Expr} (hspells : Spells true 9 e [t])
      (hstarts : t.Starts (skipGap s) r') : ∃ ts, Spells true 9 e ts ∧ Scans s ts (skipGap r') :=
    ⟨[t], hspells, .token hstarts (.done (skipGap_skipGap r').symm)⟩
  have hrule (hwrites : Writes p 9) : ∃ ts, Spells true 9 e ts ∧ Scans s ts (skipGap r') := by
    obtain ⟨ts, hts, hscans⟩ := hwrites hp
    exact ⟨ts, hts, hscans.of_skipGap.skipGap_right⟩
  simp only [atoms, List.mem_cons, List.not_mem_nil, or_false] at hmem
  obtain rfl | rfl | rfl | rfl | rfl | rfl | rfl := hmem
  · obtain ⟨ds, hliteral, -, rfl⟩ := literal_of_number hp
    obtain ⟨x, hread, hx⟩ := hliteral.readChars?
    rw [hread] at hp ⊢
    exact htoken (.number (hx.imp_right fun hlarge => ⟨rfl, hlarge⟩)) hp
  · obtain ⟨quote, content, written, -, -, -, rfl⟩ := quotation_eq_success.mp hp
    exact htoken .text hp
  · obtain ⟨hs, rfl⟩ := place_eq_success.mp hp
    exact htoken .domain ⟨by decide, hs, fun c hc => nomatch hc⟩
  · obtain ⟨hs, rfl⟩ := place_eq_success.mp hp
    exact htoken .target ⟨by decide, hs, fun c hc => nomatch hc⟩
  · exact hrule (writes_hash hinner)
  · exact hrule (writes_word hinner)
  · exact hrule (writes_enclosed hinner)

/-! ## Subjects and relations -/

/-- Each turn adds a property or a method. -/
theorem spells_of_accesses (hinner : Writes inner.whole 0) {steps : List (Expr → Expr)}
    (h : Turns (access inner) mid steps r) (he : Spells true 8 e ts) (hscans : Scans s ts mid) :
    ∃ us, Spells true 8 (steps.foldl (fun e step => step e) e) us ∧ Scans s us r := by
  induction h generalizing e ts with
  | done => exact ⟨ts, he, hscans⟩
  | turn first others ih =>
      obtain ⟨c, mid₁, name, mid₂, hpoint, hname, hstep⟩ := access_eq_success.mp first
      obtain ⟨hword, hisName⟩ := scans_of_identifier hname
      have hscans' := hscans.append ((takesMark_point.scans hpoint).append hword)
      obtain ⟨xs, hxs, rfl⟩ | ⟨-, rfl, rfl⟩ := hstep
      · obtain ⟨us, hus, hargs⟩ := spellsAll_of_arguments hinner hxs
        refine ih (.method le_rfl hisName he hus) ?_
        have hrow : ts ++ (Token.mark "." :: .word name :: .mark "(" :: us ++ [.mark ")"]) =
            ts ++ ([.mark "."] ++ [.word name]) ++ (.mark "(" :: us ++ [.mark ")"]) := by simp
        rw [hrow]
        exact hscans'.append hargs
      · exact ih (.property le_rfl hisName he) hscans'

theorem writes_subject (hinner : Writes inner.whole 0) : Writes (subject inner) 8 := by
  intro s e r h
  obtain ⟨first, mid, steps, hfirst, hsteps, rfl⟩ := subject_eq_success.mp h
  obtain ⟨ts, hts, hscans⟩ := writes_atom hinner hfirst
  exact spells_of_accesses hinner (turns_of_repeated hsteps) (hts.weaken (by decide)) hscans

theorem writes_relational (hinner : Writes inner.whole 0) : Writes (relational inner) 7 := by
  intro s e r h
  obtain ⟨domain, mid, hdomain, ⟨name, negated, mid', target, hlink, htarget, rfl⟩ |
    ⟨-, -, rfl, rfl⟩⟩ := relational_eq_success.mp h
  · obtain ⟨ts, hts, hscans⟩ := writes_subject hinner hdomain
    obtain ⟨us, hus, hscans'⟩ := writes_subject hinner htarget
    obtain ⟨hname, hmarks⟩ := scans_of_link hlink
    exact ⟨_, .relation le_rfl hname hts hus, hscans.append (hmarks.append hscans')⟩
  · obtain ⟨ts, hts, hscans⟩ := writes_subject hinner hdomain
    exact ⟨ts, hts.weaken (by decide), hscans⟩

/-! ## Operators -/

theorem writes_power (hinner : Writes inner.whole 0) (hsigned : Writes inner.signed 5) :
    Writes (power inner) 6 := by
  intro s e r h
  obtain ⟨base, mid, hbase, ⟨u, mid', exponent, hu, hexponent, rfl⟩ | ⟨-, rfl, rfl⟩⟩ :=
    power_eq_success.mp h
  · obtain ⟨ts, hts, hscans⟩ := writes_relational hinner hbase
    obtain ⟨us, hus, hscans'⟩ := hsigned hexponent
    refine ⟨_, @Spells.binary _ _ .pow _ _ _ _ le_rfl hts hus, ?_⟩
    exact (hscans.append (takesMark_power.scans hu)).append hscans'
  · obtain ⟨ts, hts, hscans⟩ := writes_relational hinner hbase
    exact ⟨ts, hts.weaken (by decide), hscans⟩

theorem writes_signed (hinner : Writes inner.whole 0) (hsigned : Writes inner.signed 5) :
    Writes (signed inner) 5 := by
  intro s e r h
  obtain ⟨c, mid, e', hminus, he', rfl⟩ | ⟨-, h⟩ := signed_eq_success.mp h
  · obtain ⟨ts, hts, hscans⟩ := hsigned he'
    exact ⟨_, .negate le_rfl hts, (takesMark_minus.scans hminus).append hscans⟩
  · obtain ⟨ts, hts, hscans⟩ := writes_power hinner hsigned h
    exact ⟨ts, hts.weaken (by decide), hscans⟩

section

variable {operand : Rule Expr} {operator : Rule Operator}

/-- Each turn adds an operator and its right operand. -/
theorem spells_of_further (hoperand : Writes operand (k + 1)) (hoperator : TakesOperators operator k)
    (hk : k ≤ 4) {steps : List (Operator × Expr)} (h : Turns (further operand operator) mid steps r)
    (he : Spells true k e ts) (hscans : Scans s ts mid) :
    ∃ us, Spells true k (steps.foldl (fun left x => .binary x.1 left x.2) e) us ∧ Scans s us r := by
  induction h generalizing e ts with
  | done => exact ⟨ts, he, hscans⟩
  | @turn mid rest r x steps first others ih =>
      obtain ⟨mid', hsign, hright⟩ := further_eq_success.mp first
      obtain ⟨hop, hsigns⟩ := hoperator.scans_spaced hsign
      obtain ⟨us, hus, hscans'⟩ := hoperand hright
      refine ih (.binary hop.ge ?_ ?_) ((hscans.append hsigns).append hscans')
      · rwa [Operator.left_eq (hop.trans_le hk), hop]
      · rwa [Operator.right_eq (hop.trans_le hk), hop]

theorem writes_leftGrouped (hoperand : Writes operand (k + 1)) (hoperator : TakesOperators operator k)
    (hk : k ≤ 4) : Writes (leftGrouped .binary operand operator) k := by
  intro s e r h
  obtain ⟨first, mid, steps, hfirst, hsteps, rfl⟩ := leftGrouped_eq_success.mp h
  obtain ⟨ts, hts, hscans⟩ := hoperand hfirst
  exact spells_of_further hoperand hoperator hk (turns_of_repeated hsteps)
    (hts.weaken (Nat.le_succ k)) hscans

end

/-! ## The whole grammar -/

theorem writes_calls (n : Nat) : Writes (calls n).whole 0 ∧ Writes (calls n).signed 5 := by
  induction n with
  | zero =>
      constructor <;>
      · intro s e r h
        exact absurd h not_refuse_eq_success
  | succ n ih =>
      obtain ⟨hwhole, hsigned⟩ := ih
      have hoperand : Writes (signed (calls n)) 5 := writes_signed hwhole hsigned
      have hproduct : Writes (product (calls n)) 4 :=
        writes_leftGrouped hoperand takesOperators_productSign (by decide)
      have hsum : Writes (sum (calls n)) 3 :=
        writes_leftGrouped hproduct takesOperators_sumSign (by decide)
      have hcomparison : Writes (comparison (calls n)) 2 :=
        writes_leftGrouped hsum takesOperators_comparisonSign (by decide)
      have hconjunction : Writes (conjunction (calls n)) 1 :=
        writes_leftGrouped hcomparison takesOperators_andSign (by decide)
      exact ⟨writes_leftGrouped hconjunction takesOperators_orSign (by decide), hoperand⟩

/-- A text that the grammar takes comes apart into tokens that write the tree. -/
theorem spells_of_condition {n : Nat} (h : condition n s = .success e r) :
    ∃ ts, Spells true 0 e ts ∧ Scans s ts [] := by
  obtain ⟨hspaced, -⟩ := toEnd_eq_success.mp h
  obtain ⟨rest, hwhole, hrest⟩ := spaced_eq_success.mp hspaced
  obtain ⟨ts, hts, hscans⟩ := (writes_calls _).1 hwhole
  exact ⟨ts, hts, hscans.of_skipGap.to_skipGap_eq hrest⟩

/-- And so does whatever is parsed. -/
theorem spells_of_parse {logic : String} (h : parse logic = .ok e) :
    ∃ ts, Spells true 0 e ts ∧ Scans logic.toList ts [] := by
  obtain ⟨-, -, r, hcondition⟩ := parse_eq_ok.mp h
  exact spells_of_condition hcondition

end Credence.Expr
