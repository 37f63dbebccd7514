import Credence.Proofs.Condition.Operators

/-!
# Atoms are read

The parsers of the grammar are followed level by level on a text whose tokens are known: if they
begin with an operand that is written by the strict rules, and go on with something at which the
operand stops, then the parser of its level succeeds with the tree and leaves the rest (`Reads`).

This module has the strongest level, what needs no operator.  The first token tells which of its
alternatives is the right one, and the ones before it refuse.  Parentheses and arguments call the
grammar again, with fewer tokens ahead.
-/

namespace Credence.Expr

open Grammar Credence.Parser
open Text (skipGap skipGap_skipGap)

variable {inner : Calls} {n k : Nat} {e : Expr} {args es : List Expr} {s r z : List Char}
  {ts us more : List Token} {t : Token} {c : Char} {name : String}

/-- A parser reads the operands of a strength that take at most a number of tokens. -/
def Reads (p : Rule Expr) (k n : Nat) : Prop :=
  ∀ {e ts more s}, Spells false k e ts → ts.length ≤ n → Scans s (ts ++ more) [] → Stops k more →
    ∃ r, p s = .success e r ∧ Scans r more []

theorem takesMark_opening : TakesMark (char '(') "(" := takesMark_char (by decide) rfl (by decide)

theorem takesMark_closing : TakesMark (char ')') ")" := takesMark_char (by decide) rfl (by decide)

theorem takesMark_comma : TakesMark (char ',') "," := takesMark_char (by decide) rfl (by decide)

theorem takesMark_point : TakesMark (char '.') "." := takesMark_char (by decide) rfl (by decide)

theorem takesMark_minus : TakesMark (char '-') "-" := takesMark_char (by decide) rfl (by decide)

theorem takesMark_power : TakesMark (exactly ['*', '*']) "**" :=
  takesMark_exactly (by decide) rfl (by decide)

/-! ## Arguments -/

/-- A comma and an argument. -/
def nextArgument (inner : Calls) : Rule (List Char × Expr) := do
  let _ ← spaced (char ',')
  committed (withSource inner.whole)

theorem nextArgument_eq_success {x : List Char × Expr} :
    nextArgument inner s = .success x r ↔ ∃ c mid, spacedChar ',' s = .success c mid ∧
      inner.whole mid = .success x.2 r ∧ x.1 = mid.take (mid.length - r.length) := by
  simp only [nextArgument, bind_eq_success, committed_eq_success, withSource_eq_success]

theorem arguments_eq_success {xs : List (List Char × Expr)} :
    arguments inner s = .success xs r ↔ ∃ c mid, spacedChar '(' s = .success c mid ∧
      ((∃ c, spacedChar ')' mid = .success c r ∧ xs = []) ∨
        (spacedChar ')').Refuses mid ∧ ∃ first mid₁ rest mid₂ c,
          inner.whole mid = .success first.2 mid₁ ∧
          first.1 = mid.take (mid.length - mid₁.length) ∧
          repeated (nextArgument inner) mid₁ = .success rest mid₂ ∧
          spacedChar ')' mid₂ = .success c r ∧ xs = first :: rest) := by
  unfold arguments
  rw [bind_eq_success]
  refine exists_congr fun c => exists_congr fun mid => and_congr_right fun _ => ?_
  rw [optional?_bind_eq_success]
  simp only [bind_eq_success, committed_eq_success, withSource_eq_success, pure_eq_success]
  refine or_congr ?_ (and_congr_right fun _ => ?_)
  · constructor
    · rintro ⟨c, rest, hc, rfl, rfl⟩
      exact ⟨c, hc, rfl⟩
    · rintro ⟨c, hc, rfl⟩
      exact ⟨c, r, hc, rfl, rfl⟩
  · constructor
    · rintro ⟨first, mid₁, ⟨hfirst, hsource⟩, rest, mid₂, hrest, c, r', hc, rfl, rfl⟩
      exact ⟨first, mid₁, rest, mid₂, c, hfirst, hsource, hrest, hc, rfl⟩
    · rintro ⟨first, mid₁, rest, mid₂, c, hfirst, hsource, hrest, hc, rfl⟩
      exact ⟨first, mid₁, ⟨hfirst, hsource⟩, rest, mid₂, hrest, c, r, hc, rfl, rfl⟩

/-- What follows an argument stops it. -/
theorem stops_separator (es : List Expr) (us rest : List Token) (hus : SpellsAll false es us) :
    Stops 0 (separator es ++ us ++ .mark ")" :: rest) := by
  cases hus with
  | nil => exact stops_closing 0 rest
  | cons first others => exact stops_comma 0 _

/-- The arguments behind the first one are turns with a comma each. -/
theorem SpellsAll.turns (hinner : Reads inner.whole 0 n) (hus : SpellsAll false es us)
    (hn : us.length ≤ n) (h : Scans s (separator es ++ us ++ .mark ")" :: more) []) :
    ∃ xs r, Turns (nextArgument inner) s xs r ∧ xs.map (·.2) = es ∧
      Scans r (.mark ")" :: more) [] := by
  induction es generalizing us s with
  | nil =>
      cases hus
      exact ⟨[], s, .done, rfl, h⟩
  | cons e es ih =>
      cases hus with
      | @cons e es ts us first others =>
          simp only [List.length_append] at hn
          have hrow : separator (e :: es) ++ (ts ++ separator es ++ us) ++ .mark ")" :: more =
              .mark "," :: (ts ++ (separator es ++ us ++ .mark ")" :: more)) := by
            simp [separator]
          rw [hrow] at h
          obtain ⟨c, mid, hcomma, h⟩ := takesMark_comma.takes h
          obtain ⟨r, hr, h⟩ := hinner first (by omega) h (stops_separator es us more others)
          obtain ⟨xs, r', hturns, hxs, h⟩ := ih others (by omega) h
          refine ⟨(mid.take (mid.length - r.length), e) :: xs, r', .turn ?_ hturns, ?_, h⟩
          · exact nextArgument_eq_success.mpr ⟨c, mid, hcomma, hr, rfl⟩
          · rw [List.map_cons, hxs]

theorem BeginsOperand.ne_closing (h : BeginsOperand ts) (rest : List Token) :
    ts ≠ .mark ")" :: rest := by
  rintro rfl
  exact absurd h (by simp [BeginsOperand])

theorem reads_arguments (hinner : Reads inner.whole 0 n) (hus : SpellsAll false args us)
    (hn : us.length ≤ n) (h : Scans s (.mark "(" :: us ++ .mark ")" :: more) []) :
    ∃ xs r, arguments inner s = .success xs r ∧ xs.map (·.2) = args ∧ Scans r more [] := by
  obtain ⟨c, mid, hopening, h⟩ := takesMark_opening.takes h
  cases hus with
  | nil =>
      obtain ⟨c', r, hclosing, h⟩ := takesMark_closing.takes h
      exact ⟨[], r, arguments_eq_success.mpr ⟨c, mid, hopening, .inl ⟨c', hclosing, rfl⟩⟩, rfl, h⟩
  | @cons e es ts us first others =>
      simp only [List.length_append] at hn
      have hrow : (ts ++ separator es ++ us).append (.mark ")" :: more) =
          ts ++ (separator es ++ us ++ .mark ")" :: more) := by simp
      rw [hrow] at h
      have hrefuses : (spacedChar ')').Refuses mid :=
        takesMark_closing.refuses h (first.begins.append _).ne_closing
      obtain ⟨mid₁, hfirst, h⟩ := hinner first (by omega) h (stops_separator es us more others)
      have hlength := h.length_le
      obtain ⟨xs, mid₂, hturns, hxs, h⟩ := SpellsAll.turns hinner others (by omega) h
      have hrest : (nextArgument inner).Refuses mid₂ := by
        unfold nextArgument
        rw [refuses_bind]
        exact .inl (takesMark_comma.refuses h (by simp))
      have hle : xs.length ≤ mid₁.length := by
        have hargs := others.length_le
        rw [← hxs, List.length_map] at hargs
        simp only [List.length_append] at hlength
        omega
      obtain ⟨c', r, hclosing, h⟩ := takesMark_closing.takes h
      exact ⟨(mid.take (mid.length - mid₁.length), e) :: xs, r,
        arguments_eq_success.mpr ⟨c, mid, hopening, .inr ⟨hrefuses, _, mid₁, xs, mid₂, c', hfirst, rfl,
          hturns.repeated hrest hle, hclosing, rfl⟩⟩, by rw [List.map_cons, hxs], h⟩

/-! ## Atoms -/

/-- The name of a function, or a text. -/
def functionName : Rule String := orElse (do keyword "is"; return "is") identifier

theorem functionName_eq_success :
    functionName s = .success name r ↔
      (Token.word name).Starts s r ∧ (name = "is" ∨ name.toList ∉ reserved) := by
  simp only [functionName, orElse_eq_success, bind_eq_success, pure_eq_success,
    keyword_eq_success_iff (w := "is") (by decide), identifier_eq_success]
  constructor
  · rintro (⟨-, mid, his, rfl, rfl⟩ | ⟨-, hname, hreserved⟩)
    · exact ⟨his, .inl rfl⟩
    · exact ⟨hname, .inr hreserved⟩
  · rintro ⟨hname, rfl | hreserved⟩
    · exact .inl ⟨(), r, hname, rfl, rfl⟩
    · refine .inr ⟨?_, hname, hreserved⟩
      rw [(gentle_keyword.bind fun _ => gentle_pure).refuses_iff]
      intro a r' h
      simp only [bind_eq_success, pure_eq_success,
        keyword_eq_success_iff (w := "is") (by decide)] at h
      obtain ⟨-, mid, his, -, -⟩ := h
      obtain ⟨heq, -⟩ := Token.Starts.unique (t := .word name) hname his
      obtain rfl := Token.word.inj heq
      exact hreserved (by decide)

theorem word_eq_success :
    word inner s = .success e r ↔ ∃ name mid, functionName s = .success name mid ∧
      ((spacedChar '(').accepts mid = true ∧
          (∃ args, arguments inner mid = .success args r ∧ call name args = .ok e) ∨
        (spacedChar '(').accepts mid = false ∧ name ≠ "is" ∧ e = .text name ∧ mid = r) := by
  unfold word
  dsimp only
  rw [bind_eq_success]
  refine exists_congr fun name => exists_congr fun mid => and_congr_right fun _ => ?_
  rw [ifAhead_apply, show spaced (char '(') = spacedChar '(' from rfl]
  cases (spacedChar '(').accepts mid with
  | true =>
      simp only [if_true, bind_eq_success, Bool.true_eq_false, false_and, or_false, true_and]
      constructor
      · rintro ⟨args, r', hargs, h⟩
        cases hcall : call name args with
        | ok e' =>
            rw [hcall] at h
            obtain ⟨rfl, rfl⟩ := pure_eq_success.mp h
            exact ⟨args, hargs, hcall⟩
        | error reason =>
            rw [hcall] at h
            exact absurd h not_failAt_eq_success
      · rintro ⟨args, hargs, hcall⟩
        exact ⟨args, r, hargs, by simp [hcall]⟩
  | false =>
      by_cases hname : name = "is"
      · simp [hname]
      · simp [hname, eq_comm]

theorem enclosed_eq_success :
    enclosed inner s = .success e r ↔ ∃ rest mid c, s = '(' :: rest ∧
      inner.whole rest = .success e mid ∧ spacedChar ')' mid = .success c r := by
  simp only [enclosed, bind_eq_success, char_eq_success, committed_eq_success, pure_eq_success]
  constructor
  · rintro ⟨-, rest, ⟨rfl, -⟩, e', mid, he, c, r', hc, rfl, rfl⟩
    exact ⟨rest, mid, c, rfl, he, hc⟩
  · rintro ⟨rest, mid, c, rfl, he, hc⟩
    exact ⟨'(', rest, ⟨rfl, rfl⟩, e, mid, he, c, r, hc, rfl, rfl⟩

/-! ### Which atom begins -/

theorem kindOf_of_mem_head? (h : t.Starts s r) (hc : c ∈ s.head?) : Token.kindOf c = t.kind := by
  obtain ⟨c', w, rfl, hkind, -⟩ := h.head
  obtain rfl := Option.some.inj hc
  exact hkind

theorem refuses_char_of_kind (h : t.Starts s r) (hc : Token.kindOf c ≠ t.kind) :
    (char c : Rule Char).Refuses s := by
  rw [refuses_char]
  exact fun hhead => hc (kindOf_of_mem_head? h hhead)

theorem refuses_number_of_kind (h : t.Starts s r) (ht : t.kind ≠ 0) :
    Grammar.number.Refuses s := by
  rw [refuses_number]
  intro c hc
  cases hdigit : Decimal.isDigit c with
  | false => rfl
  | true => exact absurd ((kindOf_of_mem_head? h hc).symm.trans (Token.kindOf_of_isDigit hdigit)) ht

theorem refuses_quotation_of_kind (h : t.Starts s r) (ht : t.kind ≠ 1) : quotation.Refuses s := by
  refine refuses_quotation fun c hc => ⟨?_, ?_⟩
  · rintro rfl
    exact ht (kindOf_of_mem_head? h hc).symm
  · rintro rfl
    exact ht (kindOf_of_mem_head? h hc).symm

theorem refuses_hash_of_kind (h : t.Starts s r) (ht : t.kind ≠ 2) : (hash inner).Refuses s :=
  refuses_hash fun hhead => ht (kindOf_of_mem_head? h hhead).symm

theorem gentle_functionName : Gentle functionName :=
  (gentle_keyword.bind fun _ => gentle_pure).orElse gentle_identifier

theorem refuses_word_of_kind (h : t.Starts s r) (ht : t.kind ≠ 3) : (word inner).Refuses s := by
  have hname : functionName.Refuses s := by
    rw [gentle_functionName.refuses_iff]
    intro name r' hsuccess
    obtain ⟨hstarts, -⟩ := functionName_eq_success.mp hsuccess
    obtain ⟨rfl, -⟩ := h.unique hstarts
    exact ht rfl
  show (functionName >>= _).Refuses s
  rw [refuses_bind]
  exact .inl hname

/-- A place of the query. -/
def place (c : Char) (slot : Slot) : Rule Expr := do
  let _ ← char c
  return .slot slot

theorem place_eq_success {slot : Slot} :
    place c slot s = .success e r ↔ s = c :: r ∧ e = .slot slot := by
  simp only [place, bind_eq_success, char_eq_success, pure_eq_success]
  constructor
  · rintro ⟨-, mid, ⟨rfl, -⟩, rfl, rfl⟩
    exact ⟨rfl, rfl⟩
  · rintro ⟨rfl, rfl⟩
    exact ⟨c, r, ⟨rfl, rfl⟩, rfl, rfl⟩

theorem refuses_place {slot : Slot} (h : (char c : Rule Char).Refuses s) :
    (place c slot).Refuses s := by
  unfold place
  rw [refuses_bind]
  exact .inl h

/-- The alternatives of an atom. -/
def atoms (inner : Calls) : List (Rule Expr) :=
  [Grammar.number, quotation, place '%' .domain, place '@' .target, hash inner, word inner,
    enclosed inner]

theorem atom_eq_spaced (inner : Calls) : atom inner = spaced (firstOf (atoms inner)) := rfl

theorem atom_of_alternative (before : List (Rule Expr)) {after : List (Rule Expr)} {p : Rule Expr}
    (hlist : atoms inner = before ++ p :: after) (hbefore : ∀ q ∈ before, q.Refuses (skipGap s))
    (hp : p (skipGap s) = .success e r) (hr : Scans r more []) :
    ∃ r, atom inner s = .success e r ∧ Scans r more [] := by
  refine ⟨skipGap r, ?_, hr.skipGap_left⟩
  rw [atom_eq_spaced]
  exact spaced_eq_success.mpr
    ⟨r, firstOf_eq_success.mpr ⟨before, p, after, hlist, hbefore, hp⟩, rfl⟩

theorem refuses_literals (h : t.Starts s r) (ht : 2 ≤ t.kind) :
    Grammar.number.Refuses s ∧ quotation.Refuses s :=
  ⟨refuses_number_of_kind h (by omega), refuses_quotation_of_kind h (by omega)⟩

/-- Neither a literal nor a place stands where a concept or a word does. -/
theorem refuses_places (h : t.Starts s r) (ht : 2 ≤ t.kind) (hmark : t.kind ≠ 4) :
    ∀ q ∈ [Grammar.number, quotation, place '%' .domain, place '@' .target], q.Refuses s := by
  obtain ⟨hnumber, hquotation⟩ := refuses_literals h ht
  have hdomain : (place '%' .domain).Refuses s :=
    refuses_place (refuses_char_of_kind h fun hkind => hmark hkind.symm)
  have htarget : (place '@' .target).Refuses s :=
    refuses_place (refuses_char_of_kind h fun hkind => hmark hkind.symm)
  simp [hnumber, hquotation, hdomain, htarget]

/-! ### Atoms are read -/

theorem untagged_of_stops (hr : Scans r more []) (hstops : Stops k more) :
    untagged inner name r = .success (.slot (.param name none)) r := by
  have hrefuses : (spacedChar '(').Refuses r := takesMark_opening.refuses hr hstops.call
  simp [untagged, ifAhead_apply, hrefuses.accepts]

theorem accepts_opening (h : Scans s (.mark "(" :: ts) z) : (spacedChar '(').accepts s = true := by
  obtain ⟨c, r, hc, -⟩ := takesMark_opening.takes h
  exact accepts_of_success hc

theorem call_name {function : Builtin} {xs : List (List Char × Expr)}
    (htakes : takes function (xs.map (·.2)) = true) :
    call function.name xs = .ok (.builtin function (xs.map (·.2))) := by
  have hname : function.name ≠ "f" := by cases function <;> decide
  simp [call, hname, htakes]

/-- A formula whose last argument is a quotation is that of the quotation. -/
theorem call_f {body : Formula} {source : String} {xs : List (List Char × Expr)}
    (hxs : xs.map (·.2) = args ++ [.text source]) (hbody : Formula.parse source.toList = .ok body)
    (hvars : body.vars.length = args.length) : call "f" xs = .ok (.formula args body source) := by
  obtain ⟨ys, zs, rfl, hys, hzs⟩ := List.map_eq_append_iff.mp hxs
  obtain ⟨⟨chars, last⟩, rfl, rfl⟩ := List.map_eq_singleton_iff.mp hzs
  simp [call, formulaOf, hys, hbody, hvars]

theorem word_of_call {xs : List (List Char × Expr)} {mid : List Char}
    (hname : (Token.word name).Starts s mid) (hreserved : name = "is" ∨ name.toList ∉ reserved)
    (hopening : (spacedChar '(').accepts mid = true) (hargs : arguments inner mid = .success xs r)
    (hcall : call name xs = .ok e) : word inner s = .success e r :=
  word_eq_success.mpr ⟨name, mid, functionName_eq_success.mpr ⟨hname, hreserved⟩,
    .inl ⟨hopening, xs, hargs, hcall⟩⟩

/-- Everything before the parentheses refuses them. -/
theorem refuses_before_opening (h : (Token.mark "(").Starts s r) :
    ∀ q ∈ [Grammar.number, quotation, place '%' .domain, place '@' .target, hash inner, word inner],
      q.Refuses s := by
  obtain ⟨hnumber, hquotation⟩ := refuses_literals h (by simp [Token.kind])
  have hhead : s.head? = some '(' := by
    rw [h.2.1]
    rfl
  have hdomain : (place '%' .domain).Refuses s := refuses_place (refuses_char.mpr (by simp [hhead]))
  have htarget : (place '@' .target).Refuses s := refuses_place (refuses_char.mpr (by simp [hhead]))
  have hhash : (hash inner).Refuses s := refuses_hash_of_kind h (by simp [Token.kind])
  have hword : (word inner).Refuses s := refuses_word_of_kind h (by simp [Token.kind])
  simp [hnumber, hquotation, hdomain, htarget, hhash, hword]

theorem reads_call (hinner : Reads inner.whole 0 n) (hus : SpellsAll false args us)
    (hn : us.length ≤ n) (hname : name = "is" ∨ name.toList ∉ reserved)
    (hcall : ∀ xs : List (List Char × Expr), xs.map (·.2) = args → call name xs = .ok e)
    (h : Scans s (.word name :: .mark "(" :: us ++ .mark ")" :: more) []) :
    ∃ r, atom inner s = .success e r ∧ Scans r more [] := by
  obtain ⟨mid, hstarts, h⟩ := Scans.cons_iff.mp h
  have hopening := accepts_opening h
  obtain ⟨xs, r, hargs, hxs, hr⟩ := reads_arguments hinner hus hn h
  have hword : word inner (skipGap s) = .success e r :=
    word_of_call hstarts hname hopening hargs (hcall xs hxs)
  have hbefore := refuses_places hstarts (by simp [Token.kind]) (by simp [Token.kind])
  have hhash : (hash inner).Refuses (skipGap s) := refuses_hash_of_kind hstarts (by simp [Token.kind])
  refine atom_of_alternative
    [Grammar.number, quotation, place '%' .domain, place '@' .target, hash inner]
    rfl ?_ hword hr
  intro q hq
  obtain hq | hq := List.mem_append.mp (show q ∈ [Grammar.number, quotation, place '%' .domain,
    place '@' .target] ++ [hash inner] from hq)
  · exact hbefore q hq
  · obtain rfl := List.mem_singleton.mp hq
    exact hhash

theorem reads_atom (hinner : Reads inner.whole 0 n) : Reads (atom inner) 9 (n + 1) := by
  intro e ts more s h hn hscans hstops
  cases h with
  | number =>
      obtain ⟨r, hstarts, hr⟩ := Scans.cons_iff.mp hscans
      exact atom_of_alternative [] rfl (by simp) hstarts hr
  | text =>
      obtain ⟨r, hstarts, hr⟩ := Scans.cons_iff.mp hscans
      have hnumber : Grammar.number.Refuses (skipGap s) :=
        refuses_number_of_kind hstarts (by simp [Token.kind])
      exact atom_of_alternative [Grammar.number] rfl (by simpa using hnumber) hstarts hr
  | domain =>
      obtain ⟨r, hstarts, hr⟩ := Scans.cons_iff.mp hscans
      obtain ⟨hnumber, hquotation⟩ := refuses_literals hstarts (by simp [Token.kind])
      exact atom_of_alternative [Grammar.number, quotation] rfl
        (by simp [hnumber, hquotation]) (place_eq_success.mpr ⟨hstarts.2.1, rfl⟩) hr
  | target =>
      obtain ⟨r, hstarts, hr⟩ := Scans.cons_iff.mp hscans
      obtain ⟨hnumber, hquotation⟩ := refuses_literals hstarts (by simp [Token.kind])
      have hdomain : (place '%' .domain).Refuses (skipGap s) := by
        refine refuses_place (refuses_char.mpr ?_)
        rw [hstarts.2.1]
        simp
      exact atom_of_alternative [Grammar.number, quotation, place '%' .domain] rfl
        (by simp [hnumber, hquotation, hdomain]) (place_eq_success.mpr ⟨hstarts.2.1, rfl⟩) hr
  | @parameter k concept tag hconcept htag =>
      obtain ⟨r, hstarts, hr⟩ := Scans.cons_iff.mp hscans
      have hhash : hash inner (skipGap s) = .success (.slot (.param concept tag)) r := by
        refine hash_eq_success.mpr ⟨concept, tag, r, hstarts, ?_⟩
        cases tag with
        | some t => exact .inl ⟨t, rfl, rfl, rfl⟩
        | none => exact .inr ⟨rfl, untagged_of_stops hr hstops⟩
      exact atom_of_alternative _ rfl
        (refuses_places hstarts (by simp [Token.kind]) (by simp [Token.kind])) hhash hr
  | @construct k concept args us hconcept hargs =>
      have hrow : (Token.parameter concept none :: .mark "(" :: us ++ [.mark ")"]) ++ more =
          .parameter concept none :: (.mark "(" :: us ++ .mark ")" :: more) := by simp
      rw [hrow] at hscans
      obtain ⟨mid, hstarts, hscans⟩ := Scans.cons_iff.mp hscans
      have hopening := accepts_opening hscans
      simp only [List.length_append, List.length_cons] at hn
      obtain ⟨xs, r, harguments, hxs, hr⟩ := reads_arguments hinner hargs (by omega) hscans
      have hhash : hash inner (skipGap s) = .success (.construct concept args) r := by
        refine hash_eq_success.mpr ⟨concept, none, mid, hstarts, .inr ⟨rfl, ?_⟩⟩
        simp only [untagged, ifAhead_apply, hopening, if_true, bind_eq_success, pure_eq_success]
        exact ⟨xs, r, harguments, by rw [hxs], rfl⟩
      exact atom_of_alternative _ rfl
        (refuses_places hstarts (by simp [Token.kind]) (by simp [Token.kind])) hhash hr
  | @builtin k function args us htakes hargs =>
      have hrow : (Token.word function.name :: .mark "(" :: us ++ [.mark ")"]) ++ more =
          .word function.name :: .mark "(" :: us ++ .mark ")" :: more := by simp
      rw [hrow] at hscans
      simp only [List.length_append, List.length_cons] at hn
      refine reads_call hinner hargs (by omega) ?_ (fun xs hxs => ?_) hscans
      · cases function <;> decide
      · rw [← hxs] at htakes ⊢
        exact call_name htakes
  | @formula k args last body source ts us hbody hvars hargs hlast hsource =>
      obtain rfl : last = .text source := by simpa using hsource
      have hrow : (Token.word "f" :: .mark "(" :: (ts ++ separator args ++ us) ++ [.mark ")"]) ++ more
          = .word "f" :: .mark "(" :: (ts ++ separator args ++ us) ++ .mark ")" :: more := by simp
      rw [hrow] at hscans
      simp only [List.length_append, List.length_cons] at hn
      refine reads_call hinner (hargs.concat hlast) ?_ (.inr (by decide))
        (fun xs hxs => call_f hxs hbody hvars) hscans
      simp only [List.length_append]
      omega
  | bare hloose hname => cases hloose
  | @enclosed k e us inner' =>
      have hrow : (Token.mark "(" :: us ++ [.mark ")"]) ++ more =
          .mark "(" :: (us ++ .mark ")" :: more) := by simp
      rw [hrow] at hscans
      obtain ⟨mid, hstarts, hscans⟩ := Scans.cons_iff.mp hscans
      simp only [List.length_append, List.length_cons] at hn
      obtain ⟨mid', hwhole, hscans⟩ := hinner inner' (by omega) hscans (stops_closing 0 more)
      obtain ⟨c, r, hclosing, hr⟩ := takesMark_closing.takes hscans
      exact atom_of_alternative _ rfl (refuses_before_opening hstarts)
        (enclosed_eq_success.mpr ⟨mid, mid', c, hstarts.2.1, hwhole, hclosing⟩) hr
  | property hk hkey hsubject => omega
  | method hk hname hsubject hargs => omega
  | relation hk hname hdomain htarget => omega
  | negate hk inner' => omega
  | @binary k op left right ts us hk hleft hright => cases op <;> exact absurd hk (by decide)

end Credence.Expr
