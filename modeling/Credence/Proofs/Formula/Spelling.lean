import Credence.Formula.Parser
import Credence.Proofs.Decimal.Plain
import Credence.Proofs.Text.Gap
import Mathlib.Data.List.Basic

/-!
# The grammar of formulas, as rules

`Spells free k f u` says that the text `u` is a way to write the formula `f` where an operand of
strength `k` is expected.  The strengths count the levels of the grammar from the weakest, sums, to
the strongest, what needs no operator.  Gaps stand between the tokens, and none at the two ends.

Under the strict rules a formula stands in parentheses exactly if it is weaker than its place, and a
number is written as it is printed.  The `free` rules allow parentheses everywhere, and any digits
that say the number.  A power may be written with either of its signs under both.
-/

namespace Credence

open Text (IsGap isGap skipGap)

/-! ## Strengths -/

namespace Operation

/-- How strongly an operator binds. -/
def strength : Operation → Nat
  | add | sub => 0
  | mul | div => 1
  | pow => 3

/-- The strength that the left operand must have: operators group to the left, but the base of a
power needs no operator. -/
def left : Operation → Nat
  | pow => 4
  | op => op.strength

/-- The strength that the right operand must have: the exponent of a power may have signs. -/
def right : Operation → Nat
  | pow => 2
  | op => op.strength + 1

/-- The signs that an operator is written with. -/
def spellings : Operation → List (List Char)
  | pow => [['^'], ['*', '*']]
  | op => [[op.symbol]]

theorem left_eq {op : Operation} (h : op.strength ≤ 1) : op.left = op.strength := by
  cases op with
  | pow => exact absurd h (by decide)
  | add | sub | mul | div => rfl

theorem right_eq {op : Operation} (h : op.strength ≤ 1) : op.right = op.strength + 1 := by
  cases op with
  | pow => exact absurd h (by decide)
  | add | sub | mul | div => rfl

/-- An operator stands at the beginning of a text, and a rest behind it.  A single star is no part
of a double one. -/
def Stands (op : Operation) (s r : List Char) : Prop :=
  ∃ sign ∈ op.spellings, s = sign ++ r ∧ (op = .mul → r.head? ≠ some '*')

variable {op op' : Operation} {s r r' : List Char}

theorem stands_of_ne_pow (hop : op ≠ .pow) :
    op.Stands s r ↔ s = op.symbol :: r ∧ (op = .mul → r.head? ≠ some '*') := by
  cases op with
  | pow => exact absurd rfl hop
  | add | sub | mul | div => simp [Stands, spellings]

theorem stands_pow : Stands .pow s r ↔ s = '^' :: r ∨ s = '*' :: '*' :: r := by
  simp [Stands, spellings]

/-- A sign begins with a character that continues no other token. -/
theorem Stands.head (h : op.Stands s r) :
    ∃ c w, s = c :: w ++ r ∧ isGap c = false ∧ c.isAlphanum = false ∧ c ≠ '.' := by
  cases op with
  | pow =>
      obtain rfl | rfl := stands_pow.mp h
      · exact ⟨'^', [], rfl, by decide⟩
      · exact ⟨'*', ['*'], rfl, by decide⟩
  | add | sub | mul | div =>
      obtain ⟨rfl, -⟩ := (stands_of_ne_pow (by decide)).mp h
      exact ⟨_, [], rfl, by decide⟩

theorem Stands.length_lt (h : op.Stands s r) : r.length < s.length := by
  obtain ⟨c, w, rfl, -⟩ := h.head
  simp only [List.length_append, List.length_cons]
  omega

theorem Stands.skipGap_eq (h : op.Stands s r) : skipGap s = s := by
  obtain ⟨c, w, rfl, hc, -⟩ := h.head
  exact Text.skipGap_cons hc _

/-- One operator at most stands at the beginning of a text. -/
theorem Stands.unique (h : op.Stands s r) (h' : op'.Stands s r') : op = op' := by
  cases op with
  | pow =>
      cases op' with
      | pow => rfl
      | add | sub | mul | div =>
          obtain ⟨rfl, hstar⟩ := (stands_of_ne_pow (by decide)).mp h'
          simp_all [stands_pow, symbol]
  | add | sub | mul | div =>
      obtain ⟨rfl, hstar⟩ := (stands_of_ne_pow (by decide)).mp h
      cases op' with
      | pow => simp_all [stands_pow, symbol]
      | add | sub | mul | div => simp_all [stands_of_ne_pow, symbol]

end Operation

namespace Formula

/-- How strongly the parts of a formula hold together. -/
def strength : Formula → Nat
  | combine op _ _ => op.strength
  | negate _ => 2
  | number _ | var _ => 4

/-! ## The rules -/

/-- Digits and points that say a number; under the strict rules, what is printed for it. -/
def Numeral (free : Bool) (x : Float) (digits : List Char) : Prop :=
  Decimal.IsUnsigned x ∧ digits = (Decimal.plain x).toList ∨
    free = true ∧ digits ≠ [] ∧ (∀ c ∈ digits, Decimal.isDigit c = true ∨ c = '.') ∧
      Decimal.readChars? digits = some x

/-- A text writes a formula where an operand of a strength is expected. -/
inductive Spells (free : Bool) : Nat → Formula → List Char → Prop
  | number {k : Nat} {x : Float} {digits : List Char} (hdigits : Numeral free x digits) :
      Spells free k (.number x) digits
  | var {k : Nat} {c : Char} (hc : c.isAlpha = true) : Spells free k (.var c) [c]
  | enclosed {k : Nat} {f : Formula} {u before after : List Char}
      (hweaker : free = true ∨ f.strength < k) (hbefore : IsGap before) (hafter : IsGap after)
      (inner : Spells free 0 f u) :
      Spells free k f ('(' :: (before ++ u ++ after) ++ [')'])
  | negate {k : Nat} {f : Formula} {u gap : List Char} (hk : k ≤ 2) (hgap : IsGap gap)
      (inner : Spells free 2 f u) : Spells free k (.negate f) ('-' :: (gap ++ u))
  | combine {k : Nat} {op : Operation} {l r : Formula} {u v before after sign : List Char}
      (hk : k ≤ op.strength) (hsign : sign ∈ op.spellings) (hbefore : IsGap before)
      (hafter : IsGap after) (hleft : Spells free op.left l u) (hright : Spells free op.right r v) :
      Spells free k (.combine op l r) (u ++ before ++ sign ++ (after ++ v))

variable {free : Bool} {k k' : Nat} {x : Float} {f : Formula} {u v rest digits : List Char}
  {op : Operation}

/-- What is printed for a number is read as the number. -/
theorem Numeral.reads (h : Numeral free x digits) :
    digits ≠ [] ∧ (∀ c ∈ digits, Decimal.isDigit c = true ∨ c = '.') ∧
      Decimal.readChars? digits = some x := by
  obtain ⟨hx, rfl⟩ | ⟨-, h⟩ := h
  · obtain ⟨⟨whole, hne, hwhole, hdigits⟩, hread⟩ := Decimal.plain_spec hx
    obtain heq | ⟨fraction, -, hfraction, heq⟩ := hdigits
    · rw [heq] at hread ⊢
      exact ⟨hne, fun c hc => .inl (hwhole c hc), hread⟩
    · rw [heq] at hread ⊢
      refine ⟨by simp, fun c hc => ?_, hread⟩
      obtain hc | hc := List.mem_append.mp hc
      · exact .inl (hwhole c hc)
      · obtain rfl | hc := List.mem_cons.mp hc
        · exact .inr rfl
        · exact .inl (hfraction c hc)
  · exact h

/-- Under the free rules, what holds in a place holds in a weaker one. -/
theorem Spells.weaken (h : Spells true k f u) (hk : k' ≤ k) : Spells true k' f u := by
  cases h with
  | number hdigits => exact .number hdigits
  | var hc => exact .var hc
  | enclosed hweaker hbefore hafter inner => exact .enclosed (.inl rfl) hbefore hafter inner
  | negate hk' hgap inner => exact .negate (hk.trans hk') hgap inner
  | combine hk' hsign hbefore hafter hleft hright =>
      exact .combine (hk.trans hk') hsign hbefore hafter hleft hright

/-- What a place takes and the next stronger one does not: the operators of its strength. -/
inductive Spells.Node (free : Bool) (k : Nat) : Formula → List Char → Prop
  | negate {f : Formula} {u gap : List Char} (hk : k = 2) (hgap : IsGap gap)
      (inner : Spells free 2 f u) : Node free k (.negate f) ('-' :: (gap ++ u))
  | combine {op : Operation} {l r : Formula} {u v before after sign : List Char}
      (hop : op.strength = k) (hsign : sign ∈ op.spellings) (hbefore : IsGap before)
      (hafter : IsGap after) (hleft : Spells free op.left l u) (hright : Spells free op.right r v) :
      Node free k (.combine op l r) (u ++ before ++ sign ++ (after ++ v))

theorem Spells.stronger_or_node (h : Spells free k f u) :
    Spells free (k + 1) f u ∨ Spells.Node free k f u := by
  cases h with
  | number hdigits => exact .inl (.number hdigits)
  | var hc => exact .inl (.var hc)
  | enclosed hweaker hbefore hafter inner =>
      exact .inl (.enclosed (hweaker.imp_right Nat.lt_succ_of_lt) hbefore hafter inner)
  | negate hk hgap inner =>
      obtain heq | hlt := hk.eq_or_lt
      · exact .inr (.negate heq hgap inner)
      · exact .inl (.negate hlt hgap inner)
  | combine hk hsign hbefore hafter hleft hright =>
      obtain heq | hlt := hk.eq_or_lt
      · exact .inr (.combine heq.symm hsign hbefore hafter hleft hright)
      · exact .inl (.combine hlt hsign hbefore hafter hleft hright)

/-! ## What an operand begins with -/

theorem ne_of_isAlpha {c : Char} (hc : c.isAlpha = true) {d : Char} (hd : d.isAlpha = false) :
    c ≠ d := by
  rintro rfl
  exact nomatch hc.symm.trans hd

theorem isGap_of_isAlpha {c : Char} (hc : c.isAlpha = true) : isGap c = false :=
  Text.isGap_eq_false_of (by decide) hc

/-- An operand begins with a digit, a point, a letter, a parenthesis or a minus sign. -/
theorem Spells.head (h : Spells free k f u) :
    ∃ c w, u = c :: w ∧ isGap c = false ∧ c ≠ '*' ∧ (3 ≤ k → c ≠ '-') := by
  induction h with
  | number hdigits =>
      obtain ⟨hne, hall, -⟩ := hdigits.reads
      obtain ⟨c, w, rfl⟩ := List.exists_cons_of_ne_nil hne
      refine ⟨c, w, rfl, ?_⟩
      obtain hc | rfl := hall c List.mem_cons_self
      · refine ⟨Text.isGap_of_isDigit hc, ?_, fun _ => ?_⟩ <;>
        · rintro rfl
          exact absurd hc (by decide)
      · exact ⟨by decide, by decide, fun _ => by decide⟩
  | var hc =>
      exact ⟨_, [], rfl, isGap_of_isAlpha hc, ne_of_isAlpha hc (by decide),
        fun _ => ne_of_isAlpha hc (by decide)⟩
  | enclosed hweaker hbefore hafter inner ih =>
      exact ⟨'(', _, rfl, by decide, by decide, fun _ => by decide⟩
  | negate hk hgap inner ih =>
      exact ⟨'-', _, rfl, by decide, by decide, fun hk' => absurd (hk'.trans hk) (by decide)⟩
  | @combine k op l r u v before after sign hk hsign hbefore hafter hleft hright ihleft ihright =>
      obtain ⟨c, w, rfl, hgap, hstar, hminus⟩ := ihleft
      refine ⟨c, w ++ before ++ sign ++ (after ++ v), by simp, hgap, hstar, fun hk' => hminus ?_⟩
      -- only the base of a power can stand there
      cases op with
      | pow => decide
      | add | sub | mul | div => exact absurd (hk'.trans hk) (by decide)

theorem Spells.length_pos (h : Spells free k f u) : 0 < u.length := by
  obtain ⟨c, w, rfl, -⟩ := h.head
  simp

theorem Spells.skipGap_append (h : Spells free k f u) (rest : List Char) :
    skipGap (u ++ rest) = u ++ rest := by
  obtain ⟨c, w, rfl, hc, -⟩ := h.head
  exact Text.skipGap_cons hc _

/-- The sign of an operator stands before its right operand. -/
theorem stands_append {after sign : List Char} (hsign : sign ∈ op.spellings)
    (hafter : IsGap after) (hright : Spells free k f v) (rest : List Char) :
    op.Stands (sign ++ (after ++ v ++ rest)) (after ++ v ++ rest) := by
  refine ⟨sign, hsign, rfl, fun _ => ?_⟩
  obtain ⟨c, w, rfl, -, hstar, -⟩ := hright.head
  cases after with
  | nil => simpa using hstar
  | cons d gap =>
      have hd : d ≠ '*' := Text.ne_of_isGap (hafter d List.mem_cons_self) (by decide)
      simpa using hd

/-! ## Where an operand stops -/

/-- Nothing that follows can continue an operand of a strength: neither its last token, nor an
operator that is as strong. -/
structure Stops (k : Nat) (rest : List Char) : Prop where
  edge : ∀ c ∈ rest.head?, c.isAlphanum = false ∧ c ≠ '.'
  operator : ∀ op : Operation, k ≤ op.strength → ∀ r, ¬ op.Stands (skipGap rest) r

theorem Stops.mono (h : Stops k rest) (hk : k ≤ k') : Stops k' rest where
  edge := h.edge
  operator op hop := h.operator op (hk.trans hop)

/-- No operator has the strength of the minus sign. -/
theorem Stops.of_three (h : Stops 3 rest) : Stops 2 rest where
  edge := h.edge
  operator op hop := by
    refine h.operator op ?_
    cases op with
    | pow => exact le_rfl
    | add | sub | mul | div => exact absurd hop (by decide)

theorem edge_of_isGap {c : Char} (hc : isGap c = true) : c.isAlphanum = false ∧ c ≠ '.' := by
  have hall : Text.gaps.all (fun g => !g.isAlphanum && g != '.') = true := by decide
  simpa using Text.of_isGap hall hc

theorem stops_of_isGap {gap : List Char} (hgap : IsGap gap) (k : Nat) : Stops k gap where
  edge c hc := edge_of_isGap (hgap c (List.mem_of_mem_head? hc))
  operator op _ r h := by
    have hlength := h.length_lt
    rw [Text.skipGap_eq_nil_iff.mpr hgap] at hlength
    exact absurd hlength (Nat.not_lt_zero _)

/-- What follows a gap decides, if it cannot continue a token. -/
theorem stops_gap_append {gap : List Char} (hgap : IsGap gap)
    (hedge : ∀ c ∈ rest.head?, c.isAlphanum = false ∧ c ≠ '.')
    (hoperator : ∀ op : Operation, k ≤ op.strength → ∀ r, ¬ op.Stands (skipGap rest) r) :
    Stops k (gap ++ rest) where
  edge c hc := by
    cases gap with
    | nil => exact hedge c hc
    | cons d gap =>
        obtain rfl := Option.some.inj hc
        exact edge_of_isGap (hgap _ List.mem_cons_self)
  operator op hop r := by
    rw [Text.skipGap_append hgap]
    exact hoperator op hop r

theorem stops_closing {gap : List Char} (hgap : IsGap gap) (k : Nat) (rest : List Char) :
    Stops k (gap ++ ')' :: rest) := by
  refine stops_gap_append hgap (fun c hc => ?_) fun op _ r h => ?_
  · obtain rfl := Option.some.inj hc
    decide
  · rw [Text.skipGap_cons (by decide)] at h
    cases op with
    | pow => simp [Operation.stands_pow] at h
    | add | sub | mul | div => simp [Operation.stands_of_ne_pow, Operation.symbol] at h

/-- An operator stops the operands that are stronger. -/
theorem stops_operator {gap s r : List Char} (hgap : IsGap gap) (hop : op.Stands s r)
    (hk : op.strength < k) : Stops k (gap ++ s) := by
  refine stops_gap_append hgap (fun d hd => ?_) fun op' hop' r' h => ?_
  · obtain ⟨c, w, rfl, -, hedge⟩ := hop.head
    obtain rfl := Option.some.inj hd
    exact hedge
  · rw [hop.skipGap_eq] at h
    obtain rfl := hop.unique h
    omega

end Formula

end Credence
