import Credence.Proofs.Parsing.Outcome
import Credence.Proofs.Text.Gap
import Mathlib.Data.List.Forall2

/-!
# Parsers that agree on short texts

A grammar that calls itself is written with a number of nested calls left, so there is one grammar
for each number.  `Steady n p q` says that two parsers come to the same outcome on every text of
fewer than `n` characters, and leave over no more than they were given.  Every combinator keeps this
(`Steady.bind` and the others), and a parser behind one that takes a character only sees shorter
texts (`Eats.bind`), so that there one step of `n` is gained.
-/

namespace Credence.Parser

variable {ε α β ω : Type} {n : Nat} {p p' q q' : Parser ε α} {f g : α → Parser ε β}

/-- The same outcome on texts below a length, with no more left over than was given. -/
def Steady (n : Nat) (p q : Parser ε α) : Prop :=
  ∀ s : List Char, s.length < n → p s = q s ∧ ∀ a r, p s = .success a r → r.length ≤ s.length

/-- A parser that takes at least one character. -/
def Eats (p : Parser ε α) : Prop := ∀ s a r, p s = .success a r → r.length < s.length

theorem steady_zero (p q : Parser ε α) : Steady 0 p q := fun _ h => absurd h (Nat.not_lt_zero _)

/-! ## One after the other -/

theorem Steady.bind (hp : Steady n p q) (hf : ∀ a, Steady n (f a) (g a)) :
    Steady n (p >>= f) (q >>= g) := by
  intro s hs
  obtain ⟨heq, hle⟩ := hp s hs
  rw [bind_apply, bind_apply, ← heq]
  cases h : p s with
  | success a r =>
      have hr := hle a r h
      obtain ⟨heq', hle'⟩ := hf a r (by omega)
      exact ⟨heq', fun b r' h' => (hle' b r' h').trans hr⟩
  | refusal place reason => exact ⟨rfl, nofun⟩
  | failure place reason => exact ⟨rfl, nofun⟩

/-- What comes behind a character sees a shorter text. -/
theorem Eats.bind (hp : Eats p) (hf : ∀ a, Steady n (f a) (g a)) :
    Steady (n + 1) (p >>= f) (p >>= g) := by
  intro s hs
  rw [bind_apply, bind_apply]
  cases h : p s with
  | success a r =>
      have hr := hp s a r h
      obtain ⟨heq, hle⟩ := hf a r (by omega)
      exact ⟨heq, fun b r' h' => (hle b r' h').trans hr.le⟩
  | refusal place reason => exact ⟨rfl, nofun⟩
  | failure place reason => exact ⟨rfl, nofun⟩

/-! ## Single characters -/

theorem steady_pure (a : α) : Steady n (Pure.pure a : Parser ε α) (Pure.pure a) :=
  fun _ _ => ⟨rfl, fun _ _ h => (Outcome.success.inj h).2 ▸ le_rfl⟩

theorem steady_refuse : Steady n (refuse : Parser ε α) refuse := fun _ _ => ⟨rfl, nofun⟩

theorem steady_failAt (place : List Char) (reason : ε) :
    Steady n (failAt place reason : Parser ε α) (failAt place reason) := fun _ _ => ⟨rfl, nofun⟩

theorem Eats.steady (hp : Eats p) : Steady n p p :=
  fun s _ => ⟨rfl, fun a r h => (hp s a r h).le⟩

theorem eats_charWhere (test : Char → Bool) : Eats (charWhere test : Parser ε Char) := by
  intro s c r h
  obtain ⟨rfl, -⟩ := charWhere_eq_success.mp h
  exact Nat.lt_succ_self _

theorem eats_char (c : Char) : Eats (char c : Parser ε Char) := eats_charWhere _

theorem eats_exactly {word : List Char} (hword : word ≠ []) : Eats (exactly word : Parser ε Unit) := by
  intro s u r h
  obtain rfl := exactly_eq_success.mp h
  have hpos := List.length_pos_iff.mpr hword
  rw [List.length_append]
  omega

theorem eats_someWhere (test : Char → Bool) : Eats (someWhere test : Parser ε (List Char)) := by
  intro s cs r h
  obtain ⟨hne, rfl, -⟩ := someWhere_eq_success.mp h
  have hpos := List.length_pos_iff.mpr hne
  rw [List.length_append]
  omega

theorem steady_spanWhere (test : Char → Bool) :
    Steady n (spanWhere test : Parser ε (List Char)) (spanWhere test) := by
  refine fun s _ => ⟨rfl, fun cs r h => ?_⟩
  obtain ⟨rfl, -⟩ := spanWhere_eq_success.mp h
  rw [List.length_append]
  omega

/-! ## Around a parser -/

theorem Eats.spaced (hp : Eats p) : Eats (spaced p) := by
  intro s a r h
  obtain ⟨rest, hrest, rfl⟩ := spaced_eq_success.mp h
  have hlt := hp _ _ _ hrest
  have hbefore := Text.length_skipGap_le s
  have hafter := Text.length_skipGap_le rest
  omega

theorem Steady.spaced (hp : Steady n p q) : Steady n (spaced p) (spaced q) := by
  intro s hs
  have hbefore := Text.length_skipGap_le s
  obtain ⟨heq, hle⟩ := hp (Text.skipGap s) (by omega)
  refine ⟨by rw [Parser.spaced, Parser.spaced, heq], fun a r h => ?_⟩
  obtain ⟨rest, hrest, rfl⟩ := spaced_eq_success.mp h
  have hlt := hle _ _ hrest
  have hafter := Text.length_skipGap_le rest
  omega

theorem Steady.committed (hp : Steady n p q) : Steady n (committed p) (committed q) := by
  intro s hs
  obtain ⟨heq, hle⟩ := hp s hs
  exact ⟨by rw [Parser.committed, Parser.committed, heq],
    fun a r h => hle a r (committed_eq_success.mp h)⟩

theorem Steady.expecting (reason : ε) (hp : Steady n p q) :
    Steady n (expecting reason p) (expecting reason q) := by
  intro s hs
  obtain ⟨heq, hle⟩ := hp s hs
  exact ⟨by rw [Parser.expecting, Parser.expecting, heq],
    fun a r h => hle a r (expecting_eq_success.mp h)⟩

theorem Steady.withSource (hp : Steady n p q) : Steady n (withSource p) (withSource q) := by
  intro s hs
  obtain ⟨heq, hle⟩ := hp s hs
  unfold Parser.withSource
  rw [← heq]
  cases h : p s with
  | success a r => exact ⟨rfl, fun b r' h' => (Outcome.success.inj h').2 ▸ hle a r h⟩
  | refusal place reason => exact ⟨rfl, nofun⟩
  | failure place reason => exact ⟨rfl, nofun⟩

theorem steady_notAhead (p : Parser ε α) : Steady n (notAhead p) (notAhead p) := by
  refine fun s _ => ⟨rfl, fun u r h => ?_⟩
  obtain ⟨rfl, -⟩ := notAhead_eq_success.mp h
  exact le_rfl

/-! ## Alternatives -/

theorem Steady.optional? (hp : Steady n p q) : Steady n (optional? p) (optional? q) := by
  intro s hs
  obtain ⟨heq, hle⟩ := hp s hs
  unfold Parser.optional?
  rw [← heq]
  cases h : p s with
  | success a r => exact ⟨rfl, fun b r' h' => (Outcome.success.inj h').2 ▸ hle a r h⟩
  | refusal place reason => exact ⟨rfl, fun b r' h' => (Outcome.success.inj h').2 ▸ le_rfl⟩
  | failure place reason => exact ⟨rfl, nofun⟩

theorem Steady.orElse (hp : Steady n p p') (hq : Steady n q q') :
    Steady n (orElse p q) (orElse p' q') := by
  intro s hs
  obtain ⟨heq, hle⟩ := hp s hs
  unfold Parser.orElse
  rw [← heq]
  cases h : p s with
  | success a r => exact ⟨rfl, fun b r' h' => (Outcome.success.inj h').2 ▸ hle a r h⟩
  | refusal place reason => exact hq s hs
  | failure place reason => exact ⟨rfl, nofun⟩

theorem steady_firstOf {ps qs : List (Parser ε α)} (h : List.Forall₂ (Steady n) ps qs) :
    Steady n (firstOf ps) (firstOf qs) := by
  induction h with
  | nil => exact steady_refuse
  | cons first others ih =>
      cases others with
      | nil => exact first
      | cons => exact first.orElse ih

theorem Steady.ifAhead {yes yes' no no' : Parser ε β} (p : Parser ε α) (hyes : Steady n yes yes')
    (hno : Steady n no no') : Steady n (ifAhead p yes no) (ifAhead p yes' no') := by
  intro s hs
  rw [ifAhead_apply, ifAhead_apply]
  split
  · exact hyes s hs
  · exact hno s hs

/-! ## Repetition -/

theorem Steady.repeatedUpTo (hp : Steady n p q) (turns : Nat) :
    Steady n (repeatedUpTo p turns) (repeatedUpTo q turns) := by
  induction turns with
  | zero => exact steady_pure []
  | succ turns ih =>
      intro s hs
      obtain ⟨heq, hle⟩ := hp s hs
      unfold Parser.repeatedUpTo
      rw [← heq]
      cases h : p s with
      | success a rest =>
          have hrest := hle a rest h
          obtain ⟨heq', hle'⟩ := ih rest (by omega)
          dsimp only
          rw [← heq']
          cases h' : Parser.repeatedUpTo p turns rest with
          | success as r =>
              exact ⟨rfl, fun b r' hr' =>
                (Outcome.success.inj hr').2 ▸ (hle' as r h').trans hrest⟩
          | refusal place reason => exact ⟨rfl, fun b r' h' => by cases h'⟩
          | failure place reason => exact ⟨rfl, fun b r' h' => by cases h'⟩
      | refusal place reason => exact ⟨rfl, fun b r' h' => (Outcome.success.inj h').2 ▸ le_rfl⟩
      | failure place reason => exact ⟨rfl, fun b r' h' => by cases h'⟩

theorem Steady.repeated (hp : Steady n p q) : Steady n (repeated p) (repeated q) :=
  fun s hs => hp.repeatedUpTo s.length s hs

theorem Steady.leftGrouped {group : ω → α → α → α} {operator : Parser ε ω} (hp : Steady n p q)
    (hoperator : Steady n operator operator) :
    Steady n (leftGrouped group p operator) (leftGrouped group q operator) :=
  hp.bind fun _ =>
    (hoperator.spaced.bind fun _ => hp.committed.bind fun _ => steady_pure _).repeated.bind
      fun _ => steady_pure _

end Credence.Parser
