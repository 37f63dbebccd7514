import Credence.Proofs.Condition.Spelling

/-!
# Operators in a text

Each level of the grammar has a parser for its operators.  It takes exactly the operators of one
strength, and it refuses a text that goes on with anything else: a single slash is not taken where a
double one stands, a star is not taken where a power stands, and `is` is not taken where `is not`
stands.
-/

namespace Credence.Expr

open Grammar Credence.Parser
open Text (skipGap skipGap_skipGap isNameChar isGap)

variable {s r : List Char} {k k' : Nat} {op o : Operator} {ts more : List Token} {m : String}

/-! ## Where an operand stops -/

/-- The strength of the operators that begin with a token. -/
def Token.strength? : Token → Option Nat
  | .word w =>
    if w = "or" then some 0 else if w = "and" then some 1 else if w = "is" then some 2 else none
  | .mark m =>
    if m ∈ ["==", "!=", ">=", "<=", ">", "<"] then some 2
    else if m ∈ ["+", "-"] then some 3
    else if m ∈ ["*", "/", "//", "%"] then some 4
    else if m = "**" then some 6
    else none
  | .number _ | .text _ | .parameter _ _ => none

theorem exists_tokens_eq_cons (op : Operator) :
    ∃ t rest, op.tokens = t :: rest ∧ t.strength? = some op.strength := by
  cases op <;> exact ⟨_, _, rfl, by decide⟩

/-- Nothing that follows can continue an operand of a strength. -/
structure Stops (k : Nat) (more : List Token) : Prop where
  operator : ∀ t ∈ more.head?, ∀ i ∈ t.strength?, i < k
  /-- No relation begins. -/
  link : k ≤ 7 → (∀ rest, more ≠ .mark "=" :: rest) ∧
    ∀ name rest, more ≠ .mark "-" :: .word name :: .mark "-" :: rest
  /-- No property or method follows. -/
  access : k ≤ 8 → ∀ rest, more ≠ .mark "." :: rest
  /-- No arguments follow. -/
  call : ∀ rest, more ≠ .mark "(" :: rest

theorem Stops.mono (h : Stops k more) (hk : k ≤ k') : Stops k' more where
  operator t ht i hi := lt_of_lt_of_le (h.operator t ht i hi) hk
  link hk' := h.link (hk.trans hk')
  access hk' := h.access (hk.trans hk')
  call := h.call

theorem stops_nil (k : Nat) : Stops k [] := ⟨by simp, by simp, by simp, by simp⟩

theorem stops_closing (k : Nat) (rest : List Token) : Stops k (.mark ")" :: rest) := by
  refine ⟨?_, by simp, by simp, by simp⟩
  intro t ht i hi
  obtain rfl := Option.some.inj ht
  exact nomatch hi

theorem stops_comma (k : Nat) (rest : List Token) : Stops k (.mark "," :: rest) := by
  refine ⟨?_, by simp, by simp, by simp⟩
  intro t ht i hi
  obtain rfl := Option.some.inj ht
  exact nomatch hi

theorem ne_of_strength?_eq_none {t : Token} (ht : t.strength? = none) (rest : List Token) :
    op.tokens ++ ts ≠ t :: rest := by
  obtain ⟨t', rest', htokens, hstrength⟩ := exists_tokens_eq_cons op
  rw [htokens]
  intro h
  obtain ⟨rfl, -⟩ := List.cons.inj h
  exact nomatch ht.symm.trans hstrength

/-- An operator stops the operands that are stronger.  The operand behind a minus is no word with
another minus behind it, so no relation begins there. -/
theorem stops_operator (hk : op.strength < k) (hts : BeginsOperand ts) :
    Stops k (op.tokens ++ ts) := by
  refine ⟨?_, fun _ => ⟨ne_of_strength?_eq_none (by decide), ?_⟩,
    fun _ => ne_of_strength?_eq_none (by decide), ne_of_strength?_eq_none (by decide)⟩
  · obtain ⟨t, rest, htokens, hstrength⟩ := exists_tokens_eq_cons op
    intro t' ht' i hi
    rw [htokens] at ht'
    obtain rfl := Option.some.inj ht'
    obtain rfl := Option.some.inj (hstrength.symm.trans hi)
    exact hk
  · intro name rest h
    have hsub : op.tokens = [.mark "-"] ∧ ts = .word name :: .mark "-" :: rest := by
      cases op <;> simp_all [Operator.tokens, Operator.symbol]
    rw [hsub.2] at hts
    exact absurd hts.2 (by decide)

/-! ## Parsers of operators -/

/-- A parser takes the operators of one strength. -/
structure TakesOperators (p : Rule Operator) (k : Nat) : Prop where
  gentle : Gentle p
  scans : ∀ {s op r}, p (skipGap s) = .success op r → op.strength = k ∧ Scans s op.tokens r
  takes : ∀ {s op ts}, op.strength = k → Scans s (op.tokens ++ ts) [] → BeginsOperand ts →
    ∃ r, p (skipGap s) = .success op r ∧ Scans r ts []

variable {p : Rule Operator}

theorem TakesOperators.scans_spaced (hp : TakesOperators p k) (h : spaced p s = .success op r) :
    op.strength = k ∧ Scans s op.tokens r := by
  obtain ⟨rest, hop, rfl⟩ := spaced_eq_success.mp h
  obtain ⟨hstrength, hscans⟩ := hp.scans hop
  exact ⟨hstrength, hscans.skipGap_right⟩

theorem TakesOperators.takes_spaced (hp : TakesOperators p k) (hop : op.strength = k)
    (h : Scans s (op.tokens ++ ts) []) (hts : BeginsOperand ts) :
    ∃ r, spaced p s = .success op r ∧ Scans r ts [] := by
  obtain ⟨r, hr, hscans⟩ := hp.takes hop h hts
  exact ⟨skipGap r, spaced_eq_success.mpr ⟨r, hr, rfl⟩, hscans.skipGap_left⟩

theorem TakesOperators.refuses (hp : TakesOperators p k) (h : Scans s more [])
    (hmore : Stops k more) : (spaced p).Refuses s := by
  rw [hp.gentle.spaced.refuses_iff]
  intro op r hop
  obtain ⟨hstrength, hscans⟩ := hp.scans_spaced hop
  obtain ⟨rest, rfl, -⟩ := h.split hscans
  obtain ⟨t, rest', htokens, ht⟩ := exists_tokens_eq_cons op
  have hlt := hmore.operator t (by rw [htokens]; rfl) op.strength ht
  omega

/-! ### Words -/

theorem isWord_of_mem_reserved {w : String} (hw : w.toList ∈ reserved) : IsWord w.toList := by
  have hall : reserved.all isWord = true := by decide
  exact isWord_iff.mp (List.all_eq_true.mp hall _ hw)

/-- The keyword of an operator is taken where its word stands. -/
theorem keyword_eq_success_iff {w : String} (hw : w.toList ∈ reserved) {u : Unit} :
    keyword w s = .success u r ↔ (Token.word w).Starts s r :=
  keyword_eq_success (isWord_of_mem_reserved hw)

theorem takesOperators_word (op : Operator) {w : String} (hw : w.toList ∈ reserved)
    (hop : op.tokens = [.word w]) (honly : ∀ o : Operator, o.strength = op.strength → o = op) :
    TakesOperators (do keyword w; return op) op.strength where
  gentle := gentle_keyword.bind fun _ => gentle_pure
  scans {s o r} h := by
    simp only [bind_eq_success, pure_eq_success, keyword_eq_success_iff hw] at h
    obtain ⟨-, rest, hrest, rfl, rfl⟩ := h
    exact ⟨rfl, hop ▸ .token hrest (.refl rest)⟩
  takes {s o ts} ho h hts := by
    obtain rfl := honly o ho
    rw [hop] at h
    obtain ⟨r, first, others⟩ := Scans.cons_iff.mp h
    refine ⟨r, ?_, others⟩
    simp only [bind_eq_success, pure_eq_success, keyword_eq_success_iff hw, true_and]
    exact ⟨(), r, first, rfl⟩

theorem takesOperators_orSign : TakesOperators orSign 0 :=
  takesOperators_word .or (by decide) rfl fun o ho => by cases o <;> first | rfl | exact nomatch ho

theorem takesOperators_andSign : TakesOperators andSign 1 :=
  takesOperators_word .and (by decide) rfl fun o ho => by cases o <;> first | rfl | exact nomatch ho

/-! ### Signs -/

theorem sign_eq_success : sign m op s = .success o r ↔ s = m.toList ++ r ∧ o = op := by
  simp only [sign, bind_eq_success, exactly_eq_success, pure_eq_success]
  constructor
  · rintro ⟨-, rest, rfl, rfl, rfl⟩
    exact ⟨rfl, rfl⟩
  · rintro ⟨rfl, rfl⟩
    exact ⟨(), r, rfl, rfl, rfl⟩

theorem refuses_sign : (sign m op).Refuses s ↔ ¬ m.toList <+: s := by
  simp [sign, refuses_exactly]

theorem gentle_sign : Gentle (sign m op) := gentle_exactly.bind fun _ => gentle_pure

/-- What would make a sign longer stands behind it exactly if the longer sign stands there. -/
theorem longer_prefix_iff {w : List Char} {c : Char} : w ++ [c] <+: w ++ r ↔ r.head? = some c := by
  rw [List.prefix_append_right_inj]
  cases r with
  | nil => simp
  | cons d r => simp [List.cons_prefix_cons, eq_comm]

/-- A sign is a mark where no longer sign stands. -/
theorem scans_mark (hm : m ∈ marks) (hs : skipGap s = m.toList ++ r)
    (hlonger : ∀ c, extension? m = some c → ¬ m.toList ++ [c] <+: skipGap s) :
    Scans s [.mark m] r := by
  refine .token ⟨hm, hs, fun c hc => ?_⟩ (.refl r)
  have hc := hlonger c hc
  rw [hs] at hc
  exact mt longer_prefix_iff.mpr hc

theorem Scans.mark {z : List Char} (h : Scans s (.mark m :: ts) z) :
    ∃ r, skipGap s = m.toList ++ r ∧
      (∀ c, extension? m = some c → ¬ m.toList ++ [c] <+: skipGap s) ∧ Scans r ts z := by
  obtain ⟨r, ⟨-, hs, hext⟩, hr⟩ := Scans.cons_iff.mp h
  refine ⟨r, hs, fun c hc => ?_, hr⟩
  rw [hs]
  exact mt longer_prefix_iff.mp (hext c hc)

theorem sumSign_eq_success :
    sumSign s = .success op r ↔
      s = "+".toList ++ r ∧ op = .add ∨ ¬ "+".toList <+: s ∧ s = "-".toList ++ r ∧ op = .sub := by
  simp only [sumSign, firstOf, orElse_eq_success, sign_eq_success, refuses_sign]

theorem takesOperators_sumSign : TakesOperators sumSign 3 where
  gentle := Gentle.firstOf (by simp [gentle_sign])
  scans {s o r} h := by
    obtain ⟨hs, rfl⟩ | ⟨-, hs, rfl⟩ := sumSign_eq_success.mp h
    · exact ⟨rfl, scans_mark (by decide) hs nofun⟩
    · exact ⟨rfl, scans_mark (by decide) hs nofun⟩
  takes {s o ts} ho h hts := by
    cases o with
    | add | sub =>
        obtain ⟨r, hs, -, hr⟩ := Scans.mark h
        exact ⟨r, by simp [sumSign_eq_success, hs, Operator.symbol], hr⟩
    | or | and | eq | ne | gt | lt | ge | le | is | isNot | mul | div | floorDiv | mod | pow =>
        exact nomatch ho

/-- The star of a product, which stands alone. -/
def starSign : Rule Operator := do
  let _ ← char '*'
  notAhead (char '*')
  return .mul

theorem gentle_starSign : Gentle starSign :=
  gentle_char.bind fun _ => gentle_notAhead.bind fun _ => gentle_pure

theorem starSign_eq_success :
    starSign s = .success op r ↔ s = "*".toList ++ r ∧ ¬ "**".toList <+: s ∧ op = .mul := by
  simp only [starSign, bind_eq_success, char_eq_success, notAhead_eq_success,
    gentle_char.accepts_eq_false_iff, refuses_char, pure_eq_success]
  constructor
  · rintro ⟨-, rest, ⟨rfl, -⟩, -, mid, ⟨rfl, hstar⟩, rfl, rfl⟩
    exact ⟨rfl, mt (longer_prefix_iff (w := ['*'])).mp hstar, rfl⟩
  · rintro ⟨rfl, hstar, rfl⟩
    have hstar : r.head? ≠ some '*' := mt (longer_prefix_iff (w := ['*'])).mpr hstar
    exact ⟨'*', r, ⟨rfl, rfl⟩, (), r, ⟨rfl, hstar⟩, rfl, rfl⟩

theorem refuses_starSign (h : s.head? ≠ some '*') : starSign.Refuses s := by
  unfold starSign
  rw [refuses_bind, refuses_char]
  exact .inl h

theorem productSign_eq_success :
    productSign s = .success op r ↔
      s = "//".toList ++ r ∧ op = .floorDiv ∨ ¬ "//".toList <+: s ∧ (
      s = "/".toList ++ r ∧ op = .div ∨ ¬ "/".toList <+: s ∧ (
      starSign s = .success op r ∨ starSign.Refuses s ∧
      s = "%".toList ++ r ∧ op = .mod)) := by
  simp only [productSign, firstOf, orElse_eq_success, sign_eq_success, refuses_sign, starSign]

theorem takesOperators_productSign : TakesOperators productSign 4 where
  gentle := Gentle.firstOf (by
    simp only [List.forall_mem_cons, gentle_sign, true_and]
    exact ⟨gentle_starSign, by simp⟩)
  scans {s o r} h := by
    obtain ⟨hs, rfl⟩ | ⟨hdouble, ⟨hs, rfl⟩ | ⟨-, hstar | ⟨-, hs, rfl⟩⟩⟩ :=
      productSign_eq_success.mp h
    · exact ⟨rfl, scans_mark (by decide) hs nofun⟩
    · refine ⟨rfl, scans_mark (by decide) hs fun c hc => ?_⟩
      cases hc
      exact hdouble
    · obtain ⟨hs, hdouble, rfl⟩ := starSign_eq_success.mp hstar
      refine ⟨rfl, scans_mark (by decide) hs fun c hc => ?_⟩
      cases hc
      exact hdouble
    · exact ⟨rfl, scans_mark (by decide) hs nofun⟩
  takes {s o ts} ho h hts := by
    cases o with
    | floorDiv =>
        obtain ⟨r, hs, -, hr⟩ := Scans.mark h
        exact ⟨r, productSign_eq_success.mpr (.inl ⟨hs, rfl⟩), hr⟩
    | div =>
        obtain ⟨r, hs, hdouble, hr⟩ := Scans.mark h
        exact ⟨r, productSign_eq_success.mpr (.inr ⟨hdouble '/' rfl, .inl ⟨hs, rfl⟩⟩), hr⟩
    | mul =>
        obtain ⟨r, hs, hdouble, hr⟩ := Scans.mark h
        have hstar := starSign_eq_success.mpr ⟨hs, hdouble '*' rfl, rfl⟩
        refine ⟨r, productSign_eq_success.mpr (.inr ⟨?_, .inr ⟨?_, .inl hstar⟩⟩), hr⟩ <;>
          simp [hs, Operator.symbol]
    | mod =>
        obtain ⟨r, hs, -, hr⟩ := Scans.mark h
        have hstar : starSign.Refuses (skipGap s) :=
          refuses_starSign (by simp [hs, Operator.symbol])
        refine ⟨r, productSign_eq_success.mpr (.inr ⟨?_, .inr ⟨?_, .inr ⟨hstar, hs, rfl⟩⟩⟩), hr⟩ <;>
          simp [hs, Operator.symbol]
    | or | and | eq | ne | gt | lt | ge | le | is | isNot | add | sub | pow => exact nomatch ho

/-! ### Comparisons -/

theorem spanGap_eq_success {cs : List Char} :
    (spanWhere isGap : Rule (List Char)) s = .success cs r ↔
      s.takeWhile isGap = cs ∧ skipGap s = r := by
  simp [spanWhere, skipGap]

/-- The two words of one operator. -/
def isNotSign : Rule Operator := do
  keyword "is"
  let _ ← spanWhere isGap
  keyword "not"
  return .isNot

theorem gentle_isNotSign : Gentle isNotSign :=
  gentle_keyword.bind fun _ => gentle_spanWhere.bind fun _ =>
    gentle_keyword.bind fun _ => gentle_pure

theorem isNotSign_eq_success :
    isNotSign s = .success op r ↔ op = .isNot ∧
      ∃ mid, (Token.word "is").Starts s mid ∧ (Token.word "not").Starts (skipGap mid) r := by
  simp only [isNotSign, bind_eq_success, spanGap_eq_success, pure_eq_success,
    keyword_eq_success_iff (w := "is") (by decide), keyword_eq_success_iff (w := "not") (by decide)]
  constructor
  · rintro ⟨-, mid, his, -, -, ⟨-, rfl⟩, -, r', hnot, rfl, rfl⟩
    exact ⟨rfl, mid, his, hnot⟩
  · rintro ⟨rfl, mid, his, hnot⟩
    exact ⟨(), mid, his, _, _, ⟨rfl, rfl⟩, (), r, hnot, rfl, rfl⟩

/-- Which comparison is read at a text: each sign where none before it stands, and then the words,
`is not` before `is`. -/
theorem comparisonSign_eq_success :
    comparisonSign s = .success op r ↔
      s = "==".toList ++ r ∧ op = .eq ∨ ¬ "==".toList <+: s ∧ (
      s = "!=".toList ++ r ∧ op = .ne ∨ ¬ "!=".toList <+: s ∧ (
      s = ">=".toList ++ r ∧ op = .ge ∨ ¬ ">=".toList <+: s ∧ (
      s = "<=".toList ++ r ∧ op = .le ∨ ¬ "<=".toList <+: s ∧ (
      s = ">".toList ++ r ∧ op = .gt ∨ ¬ ">".toList <+: s ∧ (
      s = "<".toList ++ r ∧ op = .lt ∨ ¬ "<".toList <+: s ∧ (
      isNotSign s = .success op r ∨ isNotSign.Refuses s ∧
      (Token.word "is").Starts s r ∧ op = .is)))))) := by
  have his : (do keyword "is"; return .is : Rule Operator) s = .success op r ↔
      (Token.word "is").Starts s r ∧ op = .is := by
    simp only [bind_eq_success, keyword_eq_success_iff (w := "is") (by decide), pure_eq_success]
    constructor
    · rintro ⟨-, mid, his, rfl, rfl⟩
      exact ⟨his, rfl⟩
    · rintro ⟨his, rfl⟩
      exact ⟨(), r, his, rfl, rfl⟩
  rw [← his]
  simp only [comparisonSign, firstOf, orElse_eq_success, sign_eq_success, refuses_sign, isNotSign]

/-- Where the word `is` stands, no sign does. -/
theorem comparisonSign_eq_success_of_is (his : (Token.word "is").Starts s r) {z : List Char} :
    comparisonSign s = .success op z ↔
      isNotSign s = .success op z ∨
        isNotSign.Refuses s ∧ (Token.word "is").Starts s z ∧ op = .is := by
  obtain ⟨-, rfl, -⟩ := nameChars_eq_success.mp his
  simp [comparisonSign_eq_success]

/-- An operand does not begin with `not`, so what stands in front of one is `is` alone. -/
theorem refuses_isNotSign (his : (Token.word "is").Starts s r) (h : Scans r ts [])
    (hts : BeginsOperand ts) : isNotSign.Refuses s := by
  rw [gentle_isNotSign.refuses_iff]
  intro o z hsuccess
  obtain ⟨-, mid, his', hnot⟩ := isNotSign_eq_success.mp hsuccess
  obtain ⟨-, rfl⟩ := his.unique his'
  obtain ⟨rest, rfl, -⟩ := h.split (.token hnot (.refl z))
  cases rest with
  | nil => exact hts
  | cons t rest =>
      cases t with
      | mark m => exact hts.1 rfl
      | number _ | text _ | parameter _ _ | word _ => exact hts

theorem takesOperators_comparisonSign : TakesOperators comparisonSign 2 where
  gentle := Gentle.firstOf (by
    simp only [List.forall_mem_cons, gentle_sign, true_and]
    exact ⟨gentle_isNotSign, gentle_keyword.bind fun _ => gentle_pure, by simp⟩)
  scans {s o r} h := by
    obtain ⟨hs, rfl⟩ | ⟨-, ⟨hs, rfl⟩ | ⟨-, ⟨hs, rfl⟩ | ⟨hge, ⟨hs, rfl⟩ | ⟨hle, ⟨hs, rfl⟩ |
      ⟨-, ⟨hs, rfl⟩ | ⟨-, hwords | ⟨-, his, rfl⟩⟩⟩⟩⟩⟩⟩ := comparisonSign_eq_success.mp h
    · exact ⟨rfl, scans_mark (by decide) hs nofun⟩
    · exact ⟨rfl, scans_mark (by decide) hs nofun⟩
    · exact ⟨rfl, scans_mark (by decide) hs nofun⟩
    · exact ⟨rfl, scans_mark (by decide) hs nofun⟩
    · refine ⟨rfl, scans_mark (by decide) hs fun c hc => ?_⟩
      cases hc
      exact hge
    · refine ⟨rfl, scans_mark (by decide) hs fun c hc => ?_⟩
      cases hc
      exact hle
    · obtain ⟨rfl, mid, his, hnot⟩ := isNotSign_eq_success.mp hwords
      exact ⟨rfl, .token his (.token hnot (.refl r))⟩
    · exact ⟨rfl, .token his (.refl r)⟩
  takes {s o ts} ho h hts := by
    cases o with
    | eq | ne | ge | le =>
        obtain ⟨r, hs, -, hr⟩ := Scans.mark h
        exact ⟨r, by simp [comparisonSign_eq_success, hs, Operator.symbol], hr⟩
    | gt | lt =>
        obtain ⟨r, hs, hlonger, hr⟩ := Scans.mark h
        have hlonger := hlonger '=' rfl
        rw [hs] at hlonger
        refine ⟨r, ?_, hr⟩
        simpa [comparisonSign_eq_success, hs, Operator.symbol] using hlonger
    | isNot =>
        obtain ⟨mid, his, h⟩ := Scans.cons_iff.mp h
        obtain ⟨r, hnot, hr⟩ := Scans.cons_iff.mp h
        have hwords := isNotSign_eq_success.mpr ⟨rfl, mid, his, hnot⟩
        exact ⟨r, (comparisonSign_eq_success_of_is his).mpr (.inl hwords), hr⟩
    | is =>
        obtain ⟨r, his, hr⟩ := Scans.cons_iff.mp h
        have hwords := refuses_isNotSign his hr hts
        exact ⟨r, (comparisonSign_eq_success_of_is his).mpr (.inr ⟨hwords, his, rfl⟩), hr⟩
    | or | and | add | sub | mul | div | floorDiv | mod | pow => exact nomatch ho

end Credence.Expr
