import Credence.Proofs.Condition.Display

/-!
# When the written form is parsed as the tree

The written form of a tree has parentheses around operators only, and it writes what does not show
by itself with letters and code points.  It is parsed as the tree again exactly if no sign and no
relation stands where it needs parentheses (`Suits aroundOperators`), and everything in the tree
shows (`Legible`).

That this is enough follows from what is printed under a policy that suits.  That it is necessary is
read off the tokens.  Parentheses apart, a tree cannot be written with fewer tokens than its written
form has (`plain_core_le`).  So where the tokens of the written form do write the tree, they do so
operand by operand: an operand that took one more token than its own would leave too few for the
other.
-/

namespace Credence.Expr

open Grammar
open Decimal (IsUnsigned IsOverflow IsRead isFinite)

variable {loose : Bool} {k d : Nat} {e : Expr} {args : List Expr} {ts us A B : List Token}
  {t u : Token} {wraps : Nat → Expr → Bool} {logic : String}

/-! ## What is parsed is a tree of the language -/

mutual

theorem Spells.formed {k : Nat} {e : Expr} {ts : List Token} :
    Spells loose k e ts → e.Formed IsRead
  | .enclosed inner => inner.formed
  | .domain | .target | .text | .bare _ _ => trivial
  | .parameter hconcept htag => ⟨hconcept, htag⟩
  | .number hx => hx.imp_right And.right
  | .construct hconcept hargs => ⟨hconcept, hargs.formed⟩
  | .builtin htakes hargs => ⟨htakes, hargs.formed⟩
  | .formula hbody hvars hargs _ _ => ⟨hbody, hvars, hargs.formed⟩
  | .property _ hkey hsubject => ⟨hkey, hsubject.formed⟩
  | .method _ hname hsubject hargs => ⟨hname, hsubject.formed, hargs.formed⟩
  | .relation _ hname hdomain htarget => ⟨hname, hdomain.formed, htarget.formed⟩
  | .negate _ inner => inner.formed
  | .binary _ hleft hright => ⟨hleft.formed, hright.formed⟩

theorem SpellsAll.formed {args : List Expr} {ts : List Token} :
    SpellsAll loose args ts → AllFormed IsRead args
  | .nil => trivial
  | .cons first others => ⟨first.formed, others.formed⟩

end

/-! ## Trees that show -/

mutual

/-- Whether every text and every source of a formula shows, and every number is finite. -/
def Legible : Expr → Prop
  | slot _ => True
  | number x => isFinite x = true
  | text v => Shown v
  | relation _ domain target _ => domain.Legible ∧ target.Legible
  | property subject _ => subject.Legible
  | method subject _ args => subject.Legible ∧ AllLegible args
  | construct _ args | builtin _ args => AllLegible args
  | formula args _ source => Shown source ∧ AllLegible args
  | binary _ left right => left.Legible ∧ right.Legible
  | negate inner => inner.Legible

def AllLegible : List Expr → Prop
  | [] => True
  | e :: rest => e.Legible ∧ AllLegible rest

end

mutual

/-- The numbers of a tree that shows are finite. -/
theorem Formed.unsigned : ∀ {e : Expr}, e.Formed IsRead → e.Legible → e.WellFormed
  | slot .domain, _, _ | slot .target, _, _ | text _, _, _ => trivial
  | slot (.param _ _), h, _ => h
  | number _, h, hlegible =>
      h.resolve_right fun hx => Bool.false_ne_true (hx.not_isFinite.symm.trans hlegible)
  | relation _ _ _ _, h, hlegible => ⟨h.1, h.2.1.unsigned hlegible.1, h.2.2.unsigned hlegible.2⟩
  | property _ _, h, hlegible => ⟨h.1, h.2.unsigned hlegible⟩
  | method _ _ _, h, hlegible => ⟨h.1, h.2.1.unsigned hlegible.1, h.2.2.unsigned hlegible.2⟩
  | construct _ _, h, hlegible => ⟨h.1, h.2.unsigned hlegible⟩
  | builtin _ _, h, hlegible => ⟨h.1, h.2.unsigned hlegible⟩
  | formula _ _ _, h, hlegible => ⟨h.1, h.2.1, h.2.2.unsigned hlegible.2⟩
  | binary _ _ _, h, hlegible => ⟨h.1.unsigned hlegible.1, h.2.unsigned hlegible.2⟩
  | negate inner, h, hlegible => Formed.unsigned (e := inner) h hlegible

theorem AllFormed.unsigned : ∀ {args : List Expr}, AllFormed IsRead args → AllLegible args →
    AllFormed IsUnsigned args
  | [], _, _ => trivial
  | _ :: _, h, hlegible => ⟨h.1.unsigned hlegible.1, h.2.unsigned hlegible.2⟩

end

theorem map_reread_enclosed {wrapped : Bool} (h : ts.map Token.reread = ts) :
    (enclose wrapped ts).map Token.reread = enclose wrapped ts := by
  cases wrapped with
  | true => simp [enclose, Token.reread, h]
  | false => exact h

mutual

/-- The tokens of a tree that shows are read as themselves. -/
theorem map_reread_tokens : ∀ {e : Expr}, e.Legible →
    (e.tokens wraps).map Token.reread = e.tokens wraps
  | slot .domain, _ | slot .target, _ | slot (.param _ _), _ => rfl
  | number x, h => by
      have hx : isFinite x = true := h
      simp [tokens, reread_number, hx]
  | text v, h => by simp [tokens, Token.reread, rereadText_eq_self_iff.mpr h]
  | relation _ _ _ _, h => by
      simp [tokens, map_reread_enclosed (map_reread_tokens h.1),
        map_reread_enclosed (map_reread_tokens h.2), Token.reread]
  | property subject _, h => by
      simp [tokens, map_reread_enclosed (map_reread_tokens (e := subject) h), Token.reread]
  | method _ _ _, h => by
      simp [tokens, map_reread_enclosed (map_reread_tokens h.1), map_reread_tokensAll h.2,
        Token.reread]
  | construct _ args, h => by
      simp [tokens, map_reread_tokensAll h, Token.reread]
  | builtin _ args, h => by
      simp [tokens, map_reread_tokensAll h, Token.reread]
  | formula _ _ _, h => by
      simp [tokens, map_reread_tokensAll h.2, map_reread_separator, Token.reread,
        rereadText_eq_self_iff.mpr h.1]
  | binary _ _ _, h => by
      simp [tokens, map_reread_enclosed (map_reread_tokens h.1),
        map_reread_enclosed (map_reread_tokens h.2), map_reread_operator]
  | negate inner, h => by
      simp [tokens, map_reread_enclosed (map_reread_tokens (e := inner) h), Token.reread]

theorem map_reread_tokensAll : ∀ {args : List Expr}, AllLegible args →
    (tokensAll wraps args).map Token.reread = tokensAll wraps args
  | [], _ => rfl
  | _ :: _, h => by
      simp [tokensAll, map_reread_enclosed (map_reread_tokens h.1), map_reread_separator,
        map_reread_tokensAll h.2]

end

/-- A tree that shows, and that the written form suits, is parsed as itself again. -/
theorem parse_toText (h : e.Formed IsRead) (hsuits : e.Suits aroundOperators)
    (hlegible : e.Legible) : parse e.toText = .ok e := by
  have hdisplayed : e.displayed = enclose (aroundOperators 0 e) (e.tokens aroundOperators) := by
    unfold displayed core
    rw [map_reread_tokens hlegible]
  have hfits : Fits aroundOperators 0 e := .inr (Nat.zero_le _)
  have hspells := hfits.spells (spells_tokens e (h.unsigned hlegible) hsuits)
  rw [← hdisplayed] at hspells
  exact parse_of_laid hspells (row_displayed h) (laid_displayed e h)

/-! ## Balance of the written form -/

/-- Whether tokens close every parenthesis that they open, and no other. -/
def Balanced (ts : List Token) : Prop := ∀ d, ts.foldlM Token.count? d = some d

theorem balanced_enclose {wrapped : Bool} (h : Balanced ts) : Balanced (enclose wrapped ts) := by
  cases wrapped with
  | true => exact fun d => foldlM_enclosed (h (d + 1))
  | false => exact h

mutual

theorem balanced_core : ∀ e : Expr, Balanced e.core
  | slot .domain, _ | slot .target, _ | slot (.param _ _), _ | text _, _ => rfl
  | number x, d => by
      show [(Token.number x).reread].foldlM Token.count? d = some d
      rw [reread_number]
      split_ifs <;> rfl
  | relation _ domain target _, d => by
      rw [core_relation]
      exact foldlM_append_of (balanced_enclose (balanced_core domain) d)
        (foldlM_link (balanced_enclose (balanced_core target) d))
  | property subject _, d => by
      rw [core_property]
      exact foldlM_append_of (balanced_enclose (balanced_core subject) d) rfl
  | method subject _ args, d => by
      rw [core_method]
      exact foldlM_append_of (balanced_enclose (balanced_core subject) d)
        (foldlM_enclosed (balanced_displayedAll args (d + 1)))
  | construct _ args, d => by
      rw [core_construct]
      exact foldlM_enclosed (balanced_displayedAll args (d + 1))
  | builtin _ args, d => by
      rw [core_builtin]
      exact foldlM_enclosed (balanced_displayedAll args (d + 1))
  | formula args _ _, d => by
      rw [core_formula]
      exact foldlM_enclosed (foldlM_append_of (foldlM_append_of (balanced_displayedAll args (d + 1))
        (foldlM_separator args (d + 1))) rfl)
  | binary op left right, d => by
      rw [core_binary]
      exact foldlM_append_of (foldlM_append_of (balanced_enclose (balanced_core left) d)
        (foldlM_operator op d)) (balanced_enclose (balanced_core right) d)
  | negate inner, d => by
      rw [core_negate]
      exact balanced_enclose (balanced_core inner) d

theorem balanced_displayedAll : ∀ args : List Expr, Balanced (displayedAll args)
  | [], _ => rfl
  | e :: rest, d => by
      rw [displayedAll_cons]
      exact foldlM_append_of (foldlM_append_of (balanced_enclose (balanced_core e) d)
        (foldlM_separator rest d)) (balanced_displayedAll rest d)

end

theorem balanced_displayed (e : Expr) : Balanced e.displayed := balanced_enclose (balanced_core e)

/-- One more parenthesis that is open stays open. -/
theorem foldlM_count?_succ {d' : Nat} (h : ts.foldlM Token.count? d = some d') :
    ts.foldlM Token.count? (d + 1) = some (d' + 1) := by
  induction ts generalizing d with
  | nil =>
      obtain rfl := Option.some.inj h
      rfl
  | cons t ts ih =>
      rw [List.foldlM_cons] at h ⊢
      obtain ⟨d₁, hfirst, hothers⟩ := Option.bind_eq_some_iff.mp h
      have hstep : t.count? (d + 1) = some (d₁ + 1) := by
        cases t with
        | number _ | text _ | parameter _ _ | word _ =>
            obtain rfl := Option.some.inj hfirst
            rfl
        | mark m =>
            simp only [Token.count?] at hfirst ⊢
            split_ifs at hfirst ⊢ with hopening hclosing
            · obtain rfl := Option.some.inj hfirst
              rfl
            · cases d with
              | zero => cases hfirst
              | succ d =>
                  obtain rfl := Option.some.inj hfirst
                  rfl
            · obtain rfl := Option.some.inj hfirst
              rfl
      rw [hstep]
      exact ih hothers

/-- A balanced row is not one whose first parenthesis encloses more than the row. -/
theorem Balanced.not_enclosed (hA : Balanced A) (hne : A ≠ []) (hts : Balanced ts) :
    A ++ t :: us ≠ .mark "(" :: ts ++ [.mark ")"] := by
  intro h
  obtain ⟨a, X, rfl⟩ := List.exists_cons_of_ne_nil hne
  obtain ⟨rfl, hX⟩ := List.cons.inj h
  replace hX : X ++ t :: us = ts ++ [.mark ")"] := hX
  -- what follows the first parenthesis of the row is the beginning of what it encloses
  have hprefix : X <+: ts := by
    refine List.prefix_of_prefix_length_le ⟨_, hX⟩ (List.prefix_append ts _) ?_
    have hlength := congrArg List.length hX
    simp only [List.length_append, List.length_cons, List.length_nil] at hlength
    omega
  obtain ⟨Y, rfl⟩ := hprefix
  have hcloses : X.foldlM Token.count? 1 = some 0 := hA 0
  have hcounted := hts 0
  rw [List.foldlM_append] at hcounted
  obtain ⟨d, hopen, -⟩ := Option.bind_eq_some_iff.mp hcounted
  have hcontra := (foldlM_count?_succ hopen).symm.trans hcloses
  exact Nat.succ_ne_zero d (Option.some.inj hcontra)

/-! ## Tokens without the parentheses -/

/-- Whether a token is a parenthesis. -/
def Token.isBracket : Token → Bool
  | mark m => m = "(" || m = ")"
  | _ => false

/-- The number of tokens that are no parentheses. -/
def plain (ts : List Token) : Nat := ts.countP fun t => !t.isBracket

@[simp] theorem plain_nil : plain [] = 0 := rfl

@[simp] theorem plain_append (ts us : List Token) : plain (ts ++ us) = plain ts + plain us :=
  List.countP_append

@[simp] theorem plain_cons (t : Token) (ts : List Token) :
    plain (t :: ts) = plain ts + if t.isBracket then 0 else 1 := by
  unfold plain
  rw [List.countP_cons]
  cases t.isBracket <;> rfl

@[simp] theorem plain_enclose (wrapped : Bool) (ts : List Token) :
    plain (enclose wrapped ts) = plain ts := by
  cases wrapped with
  | true => simp [enclose, Token.isBracket]
  | false => rfl

@[simp] theorem plain_displayed (e : Expr) : plain e.displayed = plain e.core := plain_enclose _ _

theorem isBracket_linkMark (negated : Bool) :
    (Token.mark (linkMark negated)).isBracket = false := by
  cases negated <;> rfl

theorem plain_pos (e : Expr) : 0 < plain e.core := by
  cases e with
  | slot s => cases s <;> exact Nat.one_pos
  | number x =>
      show 0 < plain [(Token.number x).reread]
      rw [reread_number]
      split_ifs <;> exact Nat.one_pos
  | text v => exact Nat.one_pos
  | relation _ _ _ _ =>
      simp only [core_relation, plain_append, plain_cons, isBracket_linkMark]
      simp
  | property _ _ => simp [core_property, Token.isBracket]
  | method _ _ _ => simp [core_method, Token.isBracket]
  | construct _ _ => simp [core_construct, Token.isBracket]
  | builtin _ _ => simp [core_builtin, Token.isBracket]
  | formula _ _ _ => simp [core_formula, Token.isBracket]
  | binary op _ _ =>
      cases op <;> simp [core_binary, Operator.tokens, Operator.symbol, Token.isBracket]
  | negate _ => simp [core_negate, Token.isBracket]

mutual

/-- Parentheses apart, no way to write a tree has fewer tokens than its written form. -/
theorem plain_core_le {k : Nat} {e : Expr} {ts : List Token} :
    Spells loose k e ts → plain e.core ≤ plain ts
  | .enclosed inner => by simpa [Token.isBracket] using plain_core_le inner
  | .domain | .target | .parameter _ _ | .text | .bare _ _ => le_rfl
  | @Spells.number _ _ x _ => by
      show plain [(Token.number x).reread] ≤ 1
      rw [reread_number]
      split_ifs <;> exact le_rfl
  | .construct _ hargs => by
      have := plain_displayedAll_le hargs
      simpa [core_construct, Token.isBracket] using this
  | .builtin _ hargs => by
      have := plain_displayedAll_le hargs
      simpa [core_builtin, Token.isBracket] using this
  | .formula _ _ hargs hlast _ => by
      have := plain_displayedAll_le hargs
      have := (plain_pos _).trans_le (plain_core_le hlast)
      simp [core_formula, Token.isBracket]
      omega
  | .property _ _ hsubject => by
      have := plain_core_le hsubject
      simpa [core_property, Token.isBracket] using this
  | .method _ _ hsubject hargs => by
      have := plain_core_le hsubject
      have := plain_displayedAll_le hargs
      simp [core_method, Token.isBracket]
      omega
  | .relation _ _ hdomain htarget => by
      have := plain_core_le hdomain
      have := plain_core_le htarget
      simp [core_relation, Token.isBracket]
      omega
  | .negate _ inner => by
      have := plain_core_le inner
      simpa [core_negate, Token.isBracket] using this
  | .binary _ hleft hright => by
      have := plain_core_le hleft
      have := plain_core_le hright
      simp [core_binary]
      omega

theorem plain_displayedAll_le {args : List Expr} {ts : List Token} :
    SpellsAll loose args ts → plain (displayedAll args) ≤ plain ts
  | .nil => le_rfl
  | .cons first others => by
      have := plain_core_le first
      have := plain_displayedAll_le others
      simp [displayedAll_cons]
      omega

end

/-- Rows with a token between them that is no parenthesis come apart in one way, if neither has
fewer tokens than it needs. -/
theorem eq_of_append_cons (hts : plain A ≤ plain ts) (hus : plain B ≤ plain us)
    (ht : t.isBracket = false) (hu : u.isBracket = false) (h : A ++ u :: B = ts ++ t :: us) :
    A = ts ∧ u = t ∧ B = us := by
  obtain ⟨more, rfl, hmore⟩ | ⟨more, rfl, hmore⟩ := List.append_eq_append_iff.mp h
  · cases more with
    | nil =>
        obtain ⟨rfl, rfl⟩ := List.cons.inj hmore
        exact ⟨by simp, rfl, rfl⟩
    | cons v more =>
        -- the right row would go without the token in front of it
        obtain ⟨rfl, rfl⟩ := List.cons.inj hmore
        simp [ht] at hus
        omega
  · cases more with
    | nil =>
        obtain ⟨rfl, rfl⟩ := List.cons.inj hmore
        exact ⟨by simp, rfl, rfl⟩
    | cons v more =>
        obtain ⟨rfl, rfl⟩ := List.cons.inj hmore
        simp [ht] at hts

/-! ## What the tokens of the written form tell -/

theorem displayed_ne_nil (e : Expr) : e.displayed ≠ [] := by
  intro h
  have hpos := plain_pos e
  rw [← plain_displayed, h] at hpos
  exact Nat.lt_irrefl 0 hpos

/-- An operand with a token behind it is not one pair of parentheses around the whole. -/
theorem not_spells_enclosed (e : Expr) {k : Nat} {e' : Expr} (h : Spells loose k e' ts) :
    e.displayed ++ t :: us ≠ .mark "(" :: ts ++ [.mark ")"] :=
  (balanced_displayed e).not_enclosed (displayed_ne_nil e) h.foldlM

theorem plain_displayed_le (h : Spells loose k e ts) : plain e.displayed ≤ plain ts :=
  (plain_displayed e).trans_le (plain_core_le h)

theorem exists_operator_tokens (op : Operator) :
    ∃ t rest, op.tokens = t :: rest ∧ t.isBracket = false := by
  cases op <;> exact ⟨_, _, rfl, by decide⟩

/-- Rows with a comma between them, if there is one, come apart in one way. -/
theorem eq_of_separated (hts : plain A ≤ plain ts) (hus : plain B ≤ plain us)
    (hempty : args = [] → A = [] ∧ ts = [] ∨ B = [] ∧ us = [])
    (h : A ++ separator args ++ B = ts ++ separator args ++ us) : A = ts ∧ B = us := by
  cases args with
  | nil => obtain ⟨rfl, rfl⟩ | ⟨rfl, rfl⟩ := hempty rfl <;> simpa [separator] using h
  | cons e args =>
      have hrow : A ++ .mark "," :: B = ts ++ .mark "," :: us := by simpa [separator] using h
      obtain ⟨hA, -, hB⟩ := eq_of_append_cons hts hus rfl rfl hrow
      exact ⟨hA, hB⟩

/-- A single quotation writes a text, and the text that it is read as. -/
theorem eq_of_spells_quotation {v : String} (h : Spells loose k e [.text v]) : e = .text v := by
  generalize hrow : [Token.text v] = row at h
  cases h with
  | text =>
      obtain rfl := Token.text.inj (List.cons.inj hrow).1
      rfl
  | enclosed inner => exact absurd hrow (by simp)
  | negate hk inner => exact absurd hrow (by simp)
  | property hk hkey hsubject => simpa using congrArg List.length hrow
  | method hk hname hsubject hargs | relation hk hname hdomain htarget =>
      have hlength := congrArg List.length hrow
      simp at hlength
      omega
  | binary hk hleft hright =>
      have hpos := (plain_pos _).trans_le (plain_core_le hleft)
      have hpos' := (plain_pos _).trans_le (plain_core_le hright)
      have hplain : 1 = _ := congrArg plain hrow
      simp only [plain_append] at hplain
      omega
  | _ => simp at hrow

section

variable {op : Operator} {left right : Expr}

/-- Inside of its parentheses an operator stands with its operands. -/
theorem inner_of_spells
    (h : Spells loose k (binary op left right) (binary op left right).displayed) :
    Spells loose 0 (binary op left right) (binary op left right).core := by
  change Spells loose k _ (.mark "(" :: (binary op left right).core ++ [.mark ")"]) at h
  obtain ⟨t, rest, hop, ht⟩ := exists_operator_tokens op
  generalize hrow : Token.mark "(" :: _ ++ _ = row at h
  cases h with
  | enclosed inner =>
      obtain rfl := List.append_cancel_right (List.cons.inj hrow).2
      exact inner
  | @binary _ _ _ _ ts us hk hleft hright =>
      rw [core_binary, hop] at hrow
      have hsplit : (.mark "(" :: left.displayed) ++ t :: (rest ++ right.displayed ++ [.mark ")"]) =
          ts ++ t :: (rest ++ us) := by simpa using hrow
      obtain ⟨rfl, -, -⟩ := eq_of_append_cons
        (by simpa [Token.isBracket] using plain_core_le hleft)
        (by simpa [Token.isBracket] using plain_core_le hright) ht ht hsplit
      -- the left operand would leave a parenthesis open
      have hopen : some 1 = some 0 := (balanced_displayed left 1).symm.trans (hleft.foldlM 0)
      cases hopen

theorem operands_of_spells (h : Spells loose k (binary op left right) (binary op left right).core) :
    Spells loose op.left left left.displayed ∧ Spells loose op.right right right.displayed := by
  rw [core_binary] at h
  obtain ⟨t, rest, hop, ht⟩ := exists_operator_tokens op
  generalize hrow : left.displayed ++ op.tokens ++ right.displayed = row at h
  cases h with
  | enclosed inner =>
      rw [hop, List.append_assoc] at hrow
      exact absurd hrow (not_spells_enclosed left inner)
  | @binary _ _ _ _ ts us hk hleft hright =>
      rw [hop] at hrow
      have hsplit : left.displayed ++ t :: (rest ++ right.displayed) = ts ++ t :: (rest ++ us) := by
        simpa using hrow
      obtain ⟨rfl, -, hright'⟩ := eq_of_append_cons (plain_displayed_le hleft)
        (by simpa using plain_core_le hright) ht ht hsplit
      obtain rfl := List.append_cancel_left hright'
      exact ⟨hleft, hright⟩

end

mutual

/-- A tree that its written form writes is one that the form suits, and it shows. -/
theorem suits_of_spells : ∀ {k : Nat} (e : Expr), k ≤ 9 → Spells true k e e.displayed →
    Fits aroundOperators k e ∧ e.Suits aroundOperators ∧ e.Legible
  | k, slot s, hk, h => ⟨.inr hk, trivial, trivial⟩
  | k, text v, hk, h =>
      have hsame := text.inj (eq_of_spells_quotation h)
      ⟨.inr hk, trivial, rereadText_eq_self_iff.mp hsame.symm⟩
  | k, number x, hk, h => by
      refine ⟨.inr hk, trivial, ?_⟩
      change Spells true k (number x) [(Token.number x).reread] at h
      rw [reread_number] at h
      split_ifs at h with hx
      · exact hx
      · cases h
  | k, relation name domain target negated, hk, h => by
      change Spells true k _ (relation name domain target negated).core at h
      rw [core_relation] at h
      generalize hrow : domain.displayed ++ _ = row at h
      cases h with
      | enclosed inner => exact absurd hrow (not_spells_enclosed domain inner)
      | relation hk hname hdomain htarget =>
          obtain ⟨rfl, -, hmarks⟩ := eq_of_append_cons (plain_displayed_le hdomain)
            (by simpa using plain_core_le htarget) (isBracket_linkMark negated)
            (isBracket_linkMark negated) hrow
          obtain rfl : target.displayed = _ := by simpa using hmarks
          obtain ⟨hfits, hsuits, hlegible⟩ := suits_of_spells domain (by decide) hdomain
          obtain ⟨hfits', hsuits', hlegible'⟩ := suits_of_spells target (by decide) htarget
          exact ⟨.inr hk, ⟨⟨hfits, hsuits⟩, hfits', hsuits'⟩, hlegible, hlegible'⟩
  | k, property subject key, hk, h => by
      change Spells true k _ (property subject key).core at h
      rw [core_property] at h
      generalize hrow : subject.displayed ++ _ = row at h
      cases h with
      | enclosed inner => exact absurd hrow (not_spells_enclosed subject inner)
      | property hk hkey hsubject =>
          obtain rfl := List.append_cancel_right hrow
          obtain ⟨hfits, hsuits, hlegible⟩ := suits_of_spells subject (by decide) hsubject
          exact ⟨.inr hk, ⟨hfits, hsuits⟩, hlegible⟩
  | k, method subject name args, hk, h => by
      change Spells true k _ (method subject name args).core at h
      rw [core_method] at h
      generalize hrow : subject.displayed ++ _ = row at h
      cases h with
      | enclosed inner => exact absurd hrow (not_spells_enclosed subject inner)
      | method hk hname hsubject hargs =>
          obtain ⟨rfl, -, hcall⟩ := eq_of_append_cons (plain_displayed_le hsubject)
            (by simpa [Token.isBracket] using plain_displayedAll_le hargs) rfl rfl hrow
          obtain rfl : displayedAll args = _ := by simpa using hcall
          obtain ⟨hfits, hsuits, hlegible⟩ := suits_of_spells subject (by decide) hsubject
          obtain ⟨hsuits', hlegible'⟩ := suits_of_spellsAll args hargs
          exact ⟨.inr hk, ⟨⟨hfits, hsuits⟩, hsuits'⟩, hlegible, hlegible'⟩
  | k, construct concept args, hk, h => by
      refine ⟨.inr hk, ?_⟩
      change Spells true k _ (construct concept args).core at h
      rw [core_construct] at h
      generalize hrow : Token.parameter concept none :: _ ++ _ = row at h
      cases h with
      | enclosed inner => cases (List.cons.inj hrow).1
      | construct hconcept hargs =>
          obtain rfl : displayedAll args = _ := by simpa using hrow
          exact suits_of_spellsAll args hargs
  | k, builtin function args, hk, h => by
      refine ⟨.inr hk, ?_⟩
      change Spells true k _ (builtin function args).core at h
      rw [core_builtin] at h
      generalize hrow : Token.word function.name :: _ ++ _ = row at h
      cases h with
      | enclosed inner => cases (List.cons.inj hrow).1
      | builtin htakes hargs =>
          obtain rfl : displayedAll args = _ := by simpa using hrow
          exact suits_of_spellsAll args hargs
  | k, formula args body source, hk, h => by
      refine ⟨.inr hk, ?_⟩
      change Spells true k _ (formula args body source).core at h
      rw [core_formula] at h
      generalize hrow : Token.word "f" :: _ ++ _ = row at h
      cases h with
      | enclosed inner => cases (List.cons.inj hrow).1
      | @formula _ _ last _ _ ts us hbody hvars hargs hlast hsource =>
          have hargs' := plain_displayedAll_le hargs
          have hlast' := (plain_pos last).trans_le (plain_core_le hlast)
          obtain ⟨rfl, rfl⟩ := eq_of_separated (B := [.text (rereadText source)]) hargs' hlast'
            (fun hnil => by
              subst hnil
              cases hargs
              exact .inl ⟨rfl, rfl⟩)
            (List.append_cancel_right (List.cons.inj (List.cons.inj hrow).2).2)
          obtain ⟨hsuits, hlegible⟩ := suits_of_spellsAll args hargs
          obtain rfl := eq_of_spells_quotation hlast
          obtain hsource | ⟨-, hother⟩ := hsource
          · exact ⟨hsuits, rereadText_eq_self_iff.mp (text.inj hsource), hlegible⟩
          · exact absurd rfl (hother _)
  | k, binary op left right, hk, h => by
      obtain ⟨hleft, hright⟩ := operands_of_spells (inner_of_spells h)
      obtain ⟨hfits, hsuits, hlegible⟩ := suits_of_spells left (by cases op <;> decide) hleft
      obtain ⟨hfits', hsuits', hlegible'⟩ := suits_of_spells right (by cases op <;> decide) hright
      exact ⟨.inl rfl, ⟨⟨hfits, hsuits⟩, hfits', hsuits'⟩, hlegible, hlegible'⟩
  | k, negate inner, hk, h => by
      change Spells true k _ (negate inner).core at h
      rw [core_negate] at h
      generalize hrow : Token.mark "-" :: _ = row at h
      cases h with
      | enclosed inner' => exact absurd hrow (by simp)
      | negate hk inner' =>
          obtain rfl := (List.cons.inj hrow).2
          obtain ⟨hfits, hsuits, hlegible⟩ := suits_of_spells inner (by decide) inner'
          exact ⟨.inr hk, ⟨hfits, hsuits⟩, hlegible⟩

theorem suits_of_spellsAll : ∀ args : List Expr, SpellsAll true args (displayedAll args) →
    AllSuit aroundOperators args ∧ AllLegible args
  | [], h => ⟨trivial, trivial⟩
  | e :: rest, h => by
      rw [displayedAll_cons] at h
      generalize hrow : e.displayed ++ separator rest ++ displayedAll rest = row at h
      cases h with
      | cons first others =>
          obtain ⟨rfl, rfl⟩ := eq_of_separated (plain_displayed_le first)
            (plain_displayedAll_le others)
            (fun hnil => by
              subst hnil
              cases others
              exact .inr ⟨rfl, rfl⟩) hrow
          obtain ⟨-, hsuits, hlegible⟩ := suits_of_spells e (Nat.zero_le 9) first
          obtain ⟨hsuits', hlegible'⟩ := suits_of_spellsAll rest others
          exact ⟨⟨hsuits, hsuits'⟩, hlegible, hlegible'⟩

end

/-- What is parsed has a written form that is parsed as the same tree exactly if no sign and no
relation stands where it needs parentheses, all its texts show and its numbers are finite. -/
theorem parse_toText_iff (h : parse logic = .ok e) :
    parse e.toText = .ok e ↔ e.Suits aroundOperators ∧ e.Legible := by
  obtain ⟨ts, hspells, -⟩ := spells_of_parse h
  have hformed : e.Formed IsRead := hspells.formed
  constructor
  · intro hagain
    obtain ⟨us, hus, hscans⟩ := spells_of_parse hagain
    -- the written form comes apart into its own tokens only
    have hrow := row_displayed hformed
    obtain rfl := hscans.unique ((laid_displayed e hformed).scans hrow.proper hrow.apart)
    exact (suits_of_spells e (Nat.zero_le 9) hus).2
  · rintro ⟨hsuits, hlegible⟩
    exact parse_toText hformed hsuits hlegible

/-- A relation whose domain is a minus sign with its operand. -/
def nearMinus : Expr := .relation "near" (.negate (.slot .domain)) (.slot .target) false

/-- The parentheses around the minus sign are read and not written, and without them the sign takes
the whole relation. -/
theorem parse_toText_nearMinus :
    parse " ( - % ) = near = @" = .ok nearMinus ∧ nearMinus.toText = "-%=near=@" ∧
      parse nearMinus.toText ≠ .ok nearMinus := by
  have hwell : nearMinus.WellFormed := ⟨⟨isWord_iff.mp (by decide), by decide⟩, trivial, trivial⟩
  have hlaid : Laid (nearMinus.tokens weaker) " ( - % ) = near = @".toList :=
    laid_spaced (nearMinus.tokens weaker)
  have hparse : parse " ( - % ) = near = @" = .ok nearMinus :=
    parse_of_laid ((spells_tokens nearMinus hwell (suits_weaker _)).weaken (Nat.zero_le _))
      (row_tokens weaker nearMinus hwell) hlaid
  refine ⟨hparse, by decide +kernel, fun h => ?_⟩
  obtain ⟨⟨⟨hfits, -⟩, -⟩, -⟩ := (parse_toText_iff hparse).mp h
  exact hfits.elim Bool.false_ne_true (by decide)

end Credence.Expr
