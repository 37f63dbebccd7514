import Credence.Parsing.Parser
import Mathlib.Data.List.TakeWhile

/-!
# What the parsers come to

One equation for every way to put parsers together: when the result succeeds, and with which value
and rest, and when it refuses.  A grammar is followed in both directions along these equations, and
no proof about a grammar opens a parser.

Only success and refusal are told apart from everything else.  Why something fails does not matter
here, but a refusal does: it is what lets the next alternative be tried.
-/

namespace Credence.Parser

open Text (skipGap)

variable {ε α β ω : Type} {p q : Parser ε α} {f : α → Parser ε β} {test : Char → Bool}
  {s r : List Char} {a : α} {b : β}

/-- A parser refuses a text, so that another alternative may be tried. -/
def Refuses (p : Parser ε α) (s : List Char) : Prop := ∃ place reason, p s = .refusal place reason

/-! ## Sequences -/

@[simp] theorem pure_eq_success {b : α} :
    (Pure.pure a : Parser ε α) s = .success b r ↔ a = b ∧ s = r := by
  show Outcome.success a s = .success b r ↔ _
  simp

@[simp] theorem not_refuses_pure : ¬ (Pure.pure a : Parser ε α).Refuses s := by
  rintro ⟨place, reason, h⟩
  exact nomatch (h : Outcome.success a s = .refusal place reason)

theorem bind_apply : (p >>= f) s = match p s with
    | .success a rest => f a rest
    | .refusal place reason => .refusal place reason
    | .failure place reason => .failure place reason := rfl

@[simp] theorem bind_eq_success :
    (p >>= f) s = .success b r ↔ ∃ a rest, p s = .success a rest ∧ f a rest = .success b r := by
  rw [bind_apply]
  cases p s with
  | success a rest =>
      simp only [Outcome.success.injEq]
      constructor
      · intro h
        exact ⟨a, rest, ⟨rfl, rfl⟩, h⟩
      · rintro ⟨a', rest', ⟨rfl, rfl⟩, h⟩
        exact h
  | refusal place reason => simp
  | failure place reason => simp

@[simp] theorem refuses_bind :
    (p >>= f).Refuses s ↔ p.Refuses s ∨ ∃ a rest, p s = .success a rest ∧ (f a).Refuses rest := by
  unfold Refuses
  rw [bind_apply]
  cases p s with
  | success a rest =>
      simp only [Outcome.success.injEq, reduceCtorEq, exists_false, false_or]
      constructor
      · intro h
        exact ⟨a, rest, ⟨rfl, rfl⟩, h⟩
      · rintro ⟨a', rest', ⟨rfl, rfl⟩, h⟩
        exact h
  | refusal place reason => simp
  | failure place reason => simp

@[simp] theorem not_refuse_eq_success : ¬ (refuse : Parser ε α) s = .success a r := by
  simp [refuse]

@[simp] theorem refuses_refuse : (refuse : Parser ε α).Refuses s := ⟨s, none, rfl⟩

@[simp] theorem not_failAt_eq_success {place : List Char} {reason : ε} :
    ¬ (failAt place reason : Parser ε α) s = .success a r := by
  simp [failAt]

/-! ## Alternatives -/

@[simp] theorem orElse_eq_success :
    orElse p q s = .success a r ↔ p s = .success a r ∨ p.Refuses s ∧ q s = .success a r := by
  unfold Refuses orElse
  cases p s <;> simp

@[simp] theorem refuses_orElse : (orElse p q).Refuses s ↔ p.Refuses s ∧ q.Refuses s := by
  unfold Refuses orElse
  cases p s <;> simp

@[simp] theorem committed_eq_success : committed p s = .success a r ↔ p s = .success a r := by
  unfold committed
  cases p s <;> simp

@[simp] theorem not_refuses_committed : ¬ (committed p).Refuses s := by
  unfold Refuses committed
  cases p s <;> simp

theorem optional?_eq_success {o : Option α} :
    optional? p s = .success o r ↔
      (∃ a, o = some a ∧ p s = .success a r) ∨ o = none ∧ r = s ∧ p.Refuses s := by
  unfold Refuses optional?
  cases p s with
  | success a rest =>
      simp only [Outcome.success.injEq]
      constructor
      · rintro ⟨rfl, rfl⟩
        exact .inl ⟨a, rfl, rfl, rfl⟩
      · rintro (⟨a', rfl, rfl, rfl⟩ | ⟨-, -, place, reason, h⟩)
        · exact ⟨rfl, rfl⟩
        · exact nomatch h
  | refusal place reason => simp [eq_comm]
  | failure place reason => simp

@[simp] theorem not_refuses_optional? : ¬ (optional? p).Refuses s := by
  unfold Refuses optional?
  cases p s <;> simp

/-- What goes on with an optional part has two cases: the part is there, or it is refused. -/
theorem optional?_bind_eq_success {f : Option α → Parser ε β} :
    (optional? p >>= f) s = .success b r ↔
      (∃ a mid, p s = .success a mid ∧ f (some a) mid = .success b r) ∨
        p.Refuses s ∧ f none s = .success b r := by
  rw [bind_eq_success]
  constructor
  · rintro ⟨o, mid, ho, h⟩
    obtain ⟨a, rfl, ha⟩ | ⟨rfl, rfl, hrefuses⟩ := optional?_eq_success.mp ho
    · exact .inl ⟨a, mid, ha, h⟩
    · exact .inr ⟨hrefuses, h⟩
  · rintro (⟨a, mid, ha, h⟩ | ⟨hrefuses, h⟩)
    · exact ⟨some a, mid, optional?_eq_success.mpr (.inl ⟨a, rfl, ha⟩), h⟩
    · exact ⟨none, s, optional?_eq_success.mpr (.inr ⟨rfl, rfl, hrefuses⟩), h⟩

theorem accepts_eq_true : p.accepts s = true ↔ ∃ a r, p s = .success a r := by
  unfold accepts
  cases p s <;> simp

@[simp] theorem accepts_of_success (h : p s = .success a r) : p.accepts s = true :=
  accepts_eq_true.mpr ⟨a, r, h⟩

theorem Refuses.ne_success (h : p.Refuses s) : p s ≠ .success a r := by
  obtain ⟨place, reason, h⟩ := h
  rw [h]
  intro hsuccess
  cases hsuccess

@[simp] theorem Refuses.accepts (h : p.Refuses s) : p.accepts s = false := by
  obtain ⟨place, reason, h⟩ := h
  simp [Parser.accepts, h]

@[simp] theorem notAhead_eq_success {u : Unit} :
    notAhead p s = .success u r ↔ s = r ∧ p.accepts s = false := by
  unfold notAhead
  cases p.accepts s <;> simp

@[simp] theorem refuses_notAhead : (notAhead p).Refuses s ↔ p.accepts s = true := by
  unfold Refuses notAhead
  cases p.accepts s <;> simp

@[simp] theorem expecting_eq_success {reason : ε} :
    expecting reason p s = .success a r ↔ p s = .success a r := by
  unfold expecting
  cases p s <;> simp

@[simp] theorem not_refuses_expecting {reason : ε} : ¬ (expecting reason p).Refuses s := by
  unfold Refuses expecting
  cases p s <;> simp

theorem ifAhead_apply {yes no : Parser ε β} :
    ifAhead p yes no s = if p.accepts s then yes s else no s := rfl

theorem ifAhead_eq_success {yes no : Parser ε β} {b : β} :
    ifAhead p yes no s = .success b r ↔
      p.accepts s = true ∧ yes s = .success b r ∨ p.accepts s = false ∧ no s = .success b r := by
  rw [ifAhead_apply]
  cases p.accepts s <;> simp

theorem refuses_ifAhead {yes no : Parser ε β} :
    (ifAhead p yes no).Refuses s ↔
      p.accepts s = true ∧ yes.Refuses s ∨ p.accepts s = false ∧ no.Refuses s := by
  unfold Refuses
  rw [ifAhead_apply]
  cases p.accepts s <;> simp

theorem firstOf_cons_eq_success {ps : List (Parser ε α)} :
    firstOf (p :: ps) s = .success a r ↔
      p s = .success a r ∨ p.Refuses s ∧ firstOf ps s = .success a r := by
  cases ps with
  | nil => simp [firstOf]
  | cons q ps => exact orElse_eq_success

/-- The first alternative that does not refuse decides. -/
theorem firstOf_eq_success {ps : List (Parser ε α)} :
    firstOf ps s = .success a r ↔
      ∃ before p after, ps = before ++ p :: after ∧ (∀ q ∈ before, q.Refuses s) ∧
        p s = .success a r := by
  induction ps with
  | nil =>
      refine ⟨fun h => absurd h not_refuse_eq_success, ?_⟩
      rintro ⟨before, p, after, h, -, -⟩
      exact absurd h (by simp)
  | cons p ps ih =>
      rw [firstOf_cons_eq_success, ih]
      constructor
      · rintro (h | ⟨hp, before, q, after, rfl, hbefore, hq⟩)
        · exact ⟨[], p, ps, rfl, by simp, h⟩
        · exact ⟨p :: before, q, after, rfl, List.forall_mem_cons.mpr ⟨hp, hbefore⟩, hq⟩
      · rintro ⟨before, q, after, heq, hbefore, hq⟩
        cases before with
        | nil =>
            obtain ⟨rfl, rfl⟩ := List.cons.inj heq
            exact .inl hq
        | cons p' before =>
            obtain ⟨rfl, rfl⟩ := List.cons.inj heq
            obtain ⟨hp, hbefore⟩ := List.forall_mem_cons.mp hbefore
            exact .inr ⟨hp, before, q, after, rfl, hbefore, hq⟩

@[simp] theorem withSource_eq_success {x : List Char × α} :
    withSource p s = .success x r ↔
      p s = .success x.2 r ∧ x.1 = s.take (s.length - r.length) := by
  unfold withSource
  obtain ⟨source, a⟩ := x
  cases p s with
  | success a' r' =>
      simp only [Outcome.success.injEq, Prod.mk.injEq]
      constructor
      · rintro ⟨⟨rfl, rfl⟩, rfl⟩
        exact ⟨⟨rfl, rfl⟩, rfl⟩
      · rintro ⟨⟨rfl, rfl⟩, rfl⟩
        exact ⟨⟨rfl, rfl⟩, rfl⟩
  | refusal place reason => simp
  | failure place reason => simp

/-! ## Characters -/

theorem charWhere_eq_success {c : Char} :
    (charWhere test : Parser ε Char) s = .success c r ↔ s = c :: r ∧ test c = true := by
  unfold charWhere
  cases s with
  | nil => simp
  | cons d s =>
      by_cases hd : test d = true
      · simp only [hd, if_true, Outcome.success.injEq, List.cons.injEq]
        constructor
        · rintro ⟨rfl, rfl⟩
          exact ⟨⟨rfl, rfl⟩, hd⟩
        · rintro ⟨⟨rfl, rfl⟩, -⟩
          exact ⟨rfl, rfl⟩
      · simp only [hd]
        simp only [Bool.false_eq_true, if_false, reduceCtorEq, false_iff, not_and]
        intro h
        obtain ⟨rfl, rfl⟩ := List.cons.inj h
        exact hd

theorem refuses_charWhere :
    (charWhere test : Parser ε Char).Refuses s ↔ ∀ c ∈ s.head?, test c = false := by
  unfold Refuses charWhere
  cases s with
  | nil => simp
  | cons d s => cases hd : test d <;> simp [hd]

theorem accepts_charWhere :
    (charWhere test : Parser ε Char).accepts s = false ↔ ∀ c ∈ s.head?, test c = false := by
  unfold charWhere accepts
  cases s with
  | nil => simp
  | cons d s => cases hd : test d <;> simp [hd]

theorem char_eq_success {c d : Char} :
    (char c : Parser ε Char) s = .success d r ↔ s = c :: r ∧ d = c := by
  unfold char
  rw [charWhere_eq_success]
  simp only [decide_eq_true_eq]
  constructor
  · rintro ⟨rfl, rfl⟩
    exact ⟨rfl, rfl⟩
  · rintro ⟨rfl, rfl⟩
    exact ⟨rfl, rfl⟩

theorem refuses_char {c : Char} : (char c : Parser ε Char).Refuses s ↔ s.head? ≠ some c := by
  unfold char
  rw [refuses_charWhere]
  cases s <;> simp [eq_comm]

theorem exactly_eq_success {word : List Char} {u : Unit} :
    (exactly word : Parser ε Unit) s = .success u r ↔ s = word ++ r := by
  unfold exactly
  by_cases h : word.isPrefixOf s = true
  · obtain ⟨rest, rfl⟩ := List.isPrefixOf_iff_prefix.mp h
    simp
  · simp only [h, Bool.false_eq_true, if_false, reduceCtorEq, false_iff]
    rintro rfl
    exact h (by simp)

theorem refuses_exactly {word : List Char} :
    (exactly word : Parser ε Unit).Refuses s ↔ ¬ word <+: s := by
  unfold Refuses exactly
  rw [← List.isPrefixOf_iff_prefix]
  cases word.isPrefixOf s <;> simp

/-- What is taken up to the first character that fails a test. -/
theorem takeWhile_eq_iff {cs : List Char} :
    s.takeWhile test = cs ∧ s.dropWhile test = r ↔
      s = cs ++ r ∧ (∀ c ∈ cs, test c = true) ∧ ∀ c ∈ r.head?, test c = false := by
  constructor
  · rintro ⟨rfl, rfl⟩
    refine ⟨List.takeWhile_append_dropWhile.symm, fun c hc => List.mem_takeWhile_imp hc, ?_⟩
    intro c hc
    have hhead := List.head?_dropWhile_not test s
    rw [Option.mem_def.mp hc] at hhead
    exact hhead
  · rintro ⟨rfl, hcs, hr⟩
    rw [List.takeWhile_append_of_pos hcs, List.dropWhile_append_of_pos hcs]
    cases r with
    | nil => simp
    | cons c r =>
        have hc : ¬ test c = true := by simpa using hr c rfl
        simp [List.takeWhile_cons_of_neg hc, List.dropWhile_cons_of_neg hc]

theorem spanWhere_eq_success {cs : List Char} :
    (spanWhere test : Parser ε (List Char)) s = .success cs r ↔
      s = cs ++ r ∧ (∀ c ∈ cs, test c = true) ∧ ∀ c ∈ r.head?, test c = false := by
  rw [← takeWhile_eq_iff]
  simp [spanWhere]

@[simp] theorem not_refuses_spanWhere : ¬ (spanWhere test : Parser ε (List Char)).Refuses s := by
  simp [spanWhere, Refuses]

theorem someWhere_eq_success {cs : List Char} :
    (someWhere test : Parser ε (List Char)) s = .success cs r ↔
      cs ≠ [] ∧ s = cs ++ r ∧ (∀ c ∈ cs, test c = true) ∧ ∀ c ∈ r.head?, test c = false := by
  rw [← takeWhile_eq_iff]
  unfold someWhere
  cases h : s.takeWhile test with
  | nil =>
      simp only [reduceCtorEq, false_iff, not_and]
      intro hcs hnil
      exact absurd hnil.symm hcs
  | cons c cs' =>
      simp only [Outcome.success.injEq]
      constructor
      · rintro ⟨rfl, rfl⟩
        simp
      · rintro ⟨-, rfl, rfl⟩
        exact ⟨rfl, rfl⟩

theorem refuses_someWhere :
    (someWhere test : Parser ε (List Char)).Refuses s ↔ ∀ c ∈ s.head?, test c = false := by
  unfold Refuses someWhere
  cases s with
  | nil => simp
  | cons c s => cases hc : test c <;> simp [hc]

/-! ## Gaps -/

@[simp] theorem spaced_eq_success :
    spaced p s = .success a r ↔ ∃ rest, p (skipGap s) = .success a rest ∧ skipGap rest = r := by
  unfold spaced
  cases p (skipGap s) with
  | success a' rest =>
      simp only [Outcome.success.injEq]
      constructor
      · rintro ⟨rfl, rfl⟩
        exact ⟨rest, ⟨rfl, rfl⟩, rfl⟩
      · rintro ⟨rest, ⟨rfl, rfl⟩, rfl⟩
        exact ⟨rfl, rfl⟩
  | refusal place reason => simp
  | failure place reason => simp

@[simp] theorem refuses_spaced : (spaced p).Refuses s ↔ p.Refuses (skipGap s) := by
  unfold Refuses spaced
  cases p (skipGap s) <;> simp

theorem toEnd_eq_success : toEnd p s = .success a r ↔ p s = .success a [] ∧ r = [] := by
  unfold toEnd
  split
  · rename_i h
    rw [h]
    simp [eq_comm]
  · rename_i rest hne h
    rw [h]
    simp only [reduceCtorEq, Outcome.success.injEq, false_iff, not_and]
    rintro ⟨rfl, rfl⟩
    exact absurd rfl hne
  · rename_i hnil hcons
    constructor
    · intro h
      exact absurd h (hcons a r)
    · rintro ⟨h, rfl⟩
      exact absurd h (hcons a [])

/-! ## Parsers that never fail for good -/

/-- A parser succeeds or refuses. -/
def Gentle (p : Parser ε α) : Prop := ∀ s place reason, p s ≠ .failure place reason

/-- Such a parser refuses what it does not succeed on. -/
theorem Gentle.refuses_iff (h : Gentle p) : p.Refuses s ↔ ∀ a r, p s ≠ .success a r := by
  unfold Refuses
  cases hs : p s with
  | success a r => simp
  | refusal place reason => simp
  | failure place reason => exact absurd hs (h s place reason)

theorem Gentle.accepts_eq_false_iff (h : Gentle p) : p.accepts s = false ↔ p.Refuses s := by
  rw [h.refuses_iff, ← Bool.not_eq_true, accepts_eq_true]
  simp

theorem gentle_pure : Gentle (Pure.pure a : Parser ε α) := fun _ _ _ h =>
  nomatch (h : Outcome.success a _ = .failure _ _)

theorem gentle_refuse : Gentle (refuse : Parser ε α) := fun _ _ _ h => nomatch h

theorem Gentle.bind (hp : Gentle p) (hf : ∀ a, Gentle (f a)) : Gentle (p >>= f) := by
  intro s place reason h
  rw [bind_apply] at h
  cases hs : p s with
  | success a rest =>
      rw [hs] at h
      exact hf a rest place reason h
  | refusal place reason =>
      rw [hs] at h
      exact nomatch h
  | failure place reason => exact hp s place reason hs

theorem Gentle.orElse (hp : Gentle p) (hq : Gentle q) : Gentle (orElse p q) := by
  intro s place reason h
  unfold Parser.orElse at h
  cases hs : p s with
  | success a rest =>
      rw [hs] at h
      exact nomatch h
  | refusal place' reason' =>
      rw [hs] at h
      exact hq s place reason h
  | failure place reason => exact hp s place reason hs

theorem Gentle.firstOf {ps : List (Parser ε α)} (hps : ∀ p ∈ ps, Gentle p) : Gentle (firstOf ps) := by
  induction ps with
  | nil => exact gentle_refuse
  | cons p ps ih =>
      obtain ⟨hp, hps⟩ := List.forall_mem_cons.mp hps
      cases ps with
      | nil => exact hp
      | cons q ps => exact hp.orElse (ih hps)

theorem Gentle.spaced (hp : Gentle p) : Gentle (spaced p) := by
  intro s place reason h
  unfold Parser.spaced at h
  cases hs : p (skipGap s) with
  | success a rest =>
      rw [hs] at h
      exact nomatch h
  | refusal place' reason' =>
      rw [hs] at h
      exact nomatch h
  | failure place reason => exact hp _ place reason hs

theorem gentle_notAhead : Gentle (notAhead p) := by
  intro s place reason
  unfold notAhead
  split <;> simp

theorem gentle_charWhere : Gentle (charWhere test : Parser ε Char) := by
  intro s place reason
  unfold charWhere
  cases s with
  | nil => simp
  | cons c s => cases hc : test c <;> simp [hc]

theorem gentle_char {c : Char} : Gentle (char c : Parser ε Char) := gentle_charWhere

theorem gentle_exactly {word : List Char} : Gentle (exactly word : Parser ε Unit) := by
  intro s place reason
  unfold exactly
  split <;> simp

theorem gentle_spanWhere : Gentle (spanWhere test : Parser ε (List Char)) := by
  intro s place reason
  simp [spanWhere]

/-! ## Repetition -/

/-- Turn after turn of a parser, each where the one before stopped. -/
inductive Turns (p : Parser ε α) : List Char → List α → List Char → Prop
  | done {s : List Char} : Turns p s [] s
  | turn {s rest r : List Char} {a : α} {as : List α} (first : p s = .success a rest)
      (others : Turns p rest as r) : Turns p s (a :: as) r

theorem turns_of_repeatedUpTo {n : Nat} {as : List α}
    (h : repeatedUpTo p n s = .success as r) : Turns p s as r := by
  induction n generalizing s as with
  | zero =>
      obtain ⟨rfl, rfl⟩ := Outcome.success.inj (h : Outcome.success [] s = .success as r)
      exact .done
  | succ n ih =>
      unfold repeatedUpTo at h
      cases hp : p s with
      | success a rest =>
          rw [hp] at h
          dsimp only at h
          cases hrest : repeatedUpTo p n rest with
          | success as' r' =>
              rw [hrest] at h
              obtain ⟨rfl, rfl⟩ := Outcome.success.inj h
              exact .turn hp (ih hrest)
          | refusal place reason => simp [hrest] at h
          | failure place reason => simp [hrest] at h
      | refusal place reason =>
          rw [hp] at h
          obtain ⟨rfl, rfl⟩ := Outcome.success.inj h
          exact .done
      | failure place reason => simp [hp] at h

theorem Turns.repeatedUpTo {n : Nat} {as : List α} (h : Turns p s as r) (hr : p.Refuses r)
    (hn : as.length ≤ n) : repeatedUpTo p n s = .success as r := by
  induction h generalizing n with
  | done =>
      cases n with
      | zero => rfl
      | succ n =>
          obtain ⟨place, reason, hr⟩ := hr
          simp [Parser.repeatedUpTo, hr]
  | turn first others ih =>
      cases n with
      | zero => simp at hn
      | succ n => simp [Parser.repeatedUpTo, first, ih hr (by simpa using hn)]

theorem turns_of_repeated {as : List α} (h : repeated p s = .success as r) : Turns p s as r :=
  turns_of_repeatedUpTo h

theorem Turns.concat {as : List α} {rest : List Char} (h : Turns p s as rest)
    (last : p rest = .success a r) : Turns p s (as ++ [a]) r := by
  induction h with
  | done => exact .turn last .done
  | turn first others ih => exact .turn first (ih last)

/-- Turns are taken to the first refusal if there is a character for each of them. -/
theorem Turns.repeated {as : List α} (h : Turns p s as r) (hr : p.Refuses r)
    (hn : as.length ≤ s.length) : repeated p s = .success as r :=
  h.repeatedUpTo hr hn

/-- A first part and what repeated parts make of it. -/
theorem foldl_repeated_eq_success {q : Parser ε β} {step : α → β → α} :
    (p >>= fun first => repeated q >>= fun steps => Pure.pure (steps.foldl step first)) s =
        .success a r ↔
      ∃ first mid steps, p s = .success first mid ∧ repeated q mid = .success steps r ∧
        a = steps.foldl step first := by
  simp only [bind_eq_success, pure_eq_success]
  constructor
  · rintro ⟨first, mid, hfirst, steps, rest, hsteps, rfl, rfl⟩
    exact ⟨first, mid, steps, hfirst, hsteps, rfl⟩
  · rintro ⟨first, mid, steps, hfirst, hsteps, rfl⟩
    exact ⟨first, mid, hfirst, steps, r, hsteps, rfl, rfl⟩

/-- One operator with its right operand. -/
abbrev further (operand : Parser ε α) (operator : Parser ε ω) : Parser ε (ω × α) := do
  let o ← spaced operator
  let right ← committed operand
  return (o, right)

theorem leftGrouped_eq_success {group : ω → α → α → α} {operator : Parser ε ω} :
    leftGrouped group p operator s = .success a r ↔
      ∃ first mid steps, p s = .success first mid ∧
        repeated (further p operator) mid = .success steps r ∧
        a = steps.foldl (fun left x => group x.1 left x.2) first :=
  foldl_repeated_eq_success

end Credence.Parser
