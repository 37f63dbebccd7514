import Credence.Proofs.Condition.Layout
import Credence.Proofs.Condition.Parse

/-!
# Printing and parsing

A tree is printed operand by operand, and a policy says which operands stand in parentheses.  It
suits a tree if every operand that is weaker than its place does.  What is printed under such a
policy is written by the rules of the grammar, so however it is laid out it is parsed as the tree.

The policy of fewest parentheses suits every tree.
-/

namespace Credence.Expr

open Grammar
open Decimal (IsUnsigned)

variable {numbers : Float → Prop} {wraps : Nat → Expr → Bool} {k : Nat} {e : Expr}
  {args : List Expr} {ts us : List Token} {logic : String}

/-! ## Trees of the language -/

mutual

/-- Whether a tree can be written as a condition: names are names, functions take their arguments,
formulas are those of their source, and numbers are of some kind. -/
def Formed (numbers : Float → Prop) : Expr → Prop
  | slot .domain | slot .target | text _ => True
  | slot (.param concept tag) => IsLabel concept ∧ ∀ t ∈ tag, IsLabel t
  | relation name domain target _ =>
    IsName name ∧ domain.Formed numbers ∧ target.Formed numbers
  | property subject key => IsName key ∧ subject.Formed numbers
  | method subject name args => IsName name ∧ subject.Formed numbers ∧ AllFormed numbers args
  | construct concept args => IsLabel concept ∧ AllFormed numbers args
  | number x => numbers x
  | builtin function args => takes function args = true ∧ AllFormed numbers args
  | formula args body source =>
    Formula.parse source.toList = .ok body ∧ body.vars.length = args.length ∧
      AllFormed numbers args
  | binary _ left right => left.Formed numbers ∧ right.Formed numbers
  | negate inner => inner.Formed numbers

def AllFormed (numbers : Float → Prop) : List Expr → Prop
  | [] => True
  | e :: rest => e.Formed numbers ∧ AllFormed numbers rest

end

/-- Whether a tree can be written as a condition with numbers that are finite and have no sign. -/
def WellFormed (e : Expr) : Prop := e.Formed IsUnsigned

/-! ## Printing -/

/-- Tokens in parentheses, where asked for. -/
def enclose (wrapped : Bool) (ts : List Token) : List Token :=
  if wrapped then .mark "(" :: ts ++ [.mark ")"] else ts

mutual

/-- The tokens of a tree.  Whether an operand stands in parentheses is up to a policy, which is
asked with the strength of the place and the operand. -/
def tokens (wraps : Nat → Expr → Bool) : Expr → List Token
  | slot .domain => [.mark "%"]
  | slot .target => [.mark "@"]
  | slot (.param concept tag) => [.parameter concept tag]
  | relation name domain target negated =>
    enclose (wraps 8 domain) (domain.tokens wraps) ++
      .mark (linkMark negated) :: .word name :: .mark (linkMark negated) ::
      enclose (wraps 8 target) (target.tokens wraps)
  | property subject key =>
    enclose (wraps 8 subject) (subject.tokens wraps) ++ [.mark ".", .word key]
  | method subject name args =>
    enclose (wraps 8 subject) (subject.tokens wraps) ++
      (.mark "." :: .word name :: .mark "(" :: tokensAll wraps args ++ [.mark ")"])
  | construct concept args =>
    .parameter concept none :: .mark "(" :: tokensAll wraps args ++ [.mark ")"]
  | number x => [.number x]
  | text s => [.text s]
  | builtin function args => .word function.name :: .mark "(" :: tokensAll wraps args ++ [.mark ")"]
  | formula args _ source =>
    .word "f" :: .mark "(" :: (tokensAll wraps args ++ separator args ++ [.text source]) ++ [.mark ")"]
  | binary op left right =>
    enclose (wraps op.left left) (left.tokens wraps) ++ op.tokens ++
      enclose (wraps op.right right) (right.tokens wraps)
  | negate inner => .mark "-" :: enclose (wraps 5 inner) (inner.tokens wraps)

def tokensAll (wraps : Nat → Expr → Bool) : List Expr → List Token
  | [] => []
  | e :: rest => enclose (wraps 0 e) (e.tokens wraps) ++ separator rest ++ tokensAll wraps rest

end

/-! ## What is printed is a row -/

theorem begins_enclose (wrapped : Bool) (h : Begins ts) : Begins (enclose wrapped ts) := by
  cases wrapped with
  | true => exact ⟨.mark "(", ts ++ [.mark ")"], rfl, rfl⟩
  | false => exact h

/-- A tree begins with a token that continues no sign. -/
theorem begins_tokens : ∀ e : Expr, Begins (e.tokens wraps)
  | slot .domain => ⟨.mark "%", [], rfl, rfl⟩
  | slot .target => ⟨.mark "@", [], rfl, rfl⟩
  | slot (.param _ _) | number _ | text _ => ⟨_, [], rfl, rfl⟩
  | construct _ _ | builtin _ _ | formula _ _ _ => ⟨_, _, rfl, rfl⟩
  | negate _ => ⟨.mark "-", _, rfl, rfl⟩
  | relation _ domain _ _ => (begins_enclose _ (begins_tokens domain)).append _
  | property subject _ => (begins_enclose _ (begins_tokens subject)).append _
  | method subject _ _ => (begins_enclose _ (begins_tokens subject)).append _
  | binary op left right => by
      unfold tokens
      rw [List.append_assoc]
      exact (begins_enclose _ (begins_tokens left)).append _

theorem begins_tokensAll : ∀ args : List Expr, args ≠ [] → Begins (tokensAll wraps args)
  | [], h => absurd rfl h
  | e :: rest, _ => by
      unfold tokensAll
      rw [List.append_assoc]
      exact (begins_enclose _ (begins_tokens e)).append _

theorem tokensAll_eq_nil_or (args : List Expr) :
    tokensAll wraps args = [] ∨ Begins (tokensAll wraps args) := by
  cases args with
  | nil => exact .inl (by simp [tokensAll])
  | cons e rest => exact .inr (begins_tokensAll _ (by simp))

/-- A comma stands between two rows, if there are two. -/
theorem Row.separated (hts : Row numbers ts) (hus : Row numbers us)
    (hempty : args = [] → ts = [] ∨ us = []) (hbegins : args ≠ [] → Begins us) :
    Row numbers (ts ++ separator args ++ us) := by
  cases args with
  | nil =>
      obtain rfl | rfl := hempty rfl
      · simpa [separator] using hus
      · simpa [separator] using hts
  | cons e args =>
      rw [List.append_assoc]
      exact hts.append (hus.mark (by decide) (by decide) (hbegins (by simp))) (by simp [separator])

theorem Row.enclose (h : Row numbers ts) (hts : Begins ts) (wrapped : Bool) :
    Row numbers (enclose wrapped ts) := by
  cases wrapped with
  | true => exact h.enclosed (.inr hts)
  | false => exact h

mutual

/-- Under any policy the tokens of a tree stay apart when they are laid out. -/
theorem row_tokens (wraps : Nat → Expr → Bool) : ∀ e : Expr, e.Formed numbers → Row numbers (e.tokens wraps)
  | slot .domain, _ => row_place (by decide)
  | slot .target, _ => row_place (by decide)
  | slot (.param _ _), h => row_singleton h trivial
  | number _, h => row_singleton h trivial
  | text _, _ => row_singleton trivial trivial
  | construct concept args, h =>
      ((row_tokensAll wraps args h.2).enclosed (tokensAll_eq_nil_or args)).cons ⟨h.1, by simp⟩
        (fun _ _ => trivial) (by simp)
  | builtin function args, h =>
      (row_tokensAll wraps args h.2).call (tokensAll_eq_nil_or args) (isWord_name function)
  | formula args _ source, h => by
      have htext : Begins [Token.text source] := ⟨_, [], rfl, rfl⟩
      have hrow : Row numbers (tokensAll wraps args ++ separator args ++ [.text source]) :=
        (row_tokensAll wraps args h.2.2).separated (row_singleton (t := .text source) trivial trivial)
          (fun hnil => .inl (by rw [hnil]; rfl)) (fun _ => htext)
      refine hrow.call (.inr ?_) (w := "f") ⟨'f', [], rfl, by decide, by simp⟩
      cases args with
      | nil => exact htext
      | cons e rest => exact (begins_tokensAll _ (by simp)).append _ |>.append _
  | property subject key, h => by
      have hkey : Row numbers [.mark ".", .word key] :=
        (row_singleton (t := .word key) h.1.1 trivial).cons (by decide : "." ∈ marks) (by simp [Apart])
          (by simp)
      exact ((row_tokens wraps subject h.2).enclose (begins_tokens subject) _).append hkey (by simp)
  | method subject name args, h => by
      have hcall := (row_tokensAll wraps args h.2.2).call (tokensAll_eq_nil_or args) h.1.1
      exact ((row_tokens wraps subject h.2.1).enclose (begins_tokens subject) _).append
        (hcall.cons (by decide : "." ∈ marks) (by simp [Apart]) (by simp)) (by simp)
  | relation name domain target negated, h => by
      obtain ⟨hmark, hpoint⟩ := linkMark_mem negated
      have htarget := ((row_tokens wraps target h.2.2).enclose (begins_tokens target)
        (wraps 8 target)).mark hmark hpoint (begins_enclose _ (begins_tokens target))
      have hname := (htarget.word h.1.1 (by simp)).mark hmark hpoint ⟨_, _, rfl, rfl⟩
      exact ((row_tokens wraps domain h.2.1).enclose (begins_tokens domain) _).append hname (by simp)
  | negate inner, h =>
      ((row_tokens wraps inner h).enclose (begins_tokens inner) _).mark (by decide) (by decide)
        (begins_enclose _ (begins_tokens inner))
  | binary op left right, h => by
      have hright := ((row_tokens wraps right h.2).enclose (begins_tokens right)
        (wraps op.right right)).operator (begins_enclose _ (begins_tokens right)) op
      unfold tokens
      rw [List.append_assoc]
      exact ((row_tokens wraps left h.1).enclose (begins_tokens left) _).append hright (head?_tokens op _)

theorem row_tokensAll (wraps : Nat → Expr → Bool) : ∀ args : List Expr, AllFormed numbers args →
    Row numbers (tokensAll wraps args)
  | [], _ => row_nil
  | e :: rest, h =>
      ((row_tokens wraps e h.1).enclose (begins_tokens e) _).separated (row_tokensAll wraps rest h.2)
        (fun hnil => .inr (by rw [hnil]; rfl)) (begins_tokensAll rest)

end

/-! ## Policies that suit a tree -/

/-- Whether an operand stands in parentheses or is strong enough without. -/
def Fits (wraps : Nat → Expr → Bool) (k : Nat) (e : Expr) : Prop := wraps k e = true ∨ k ≤ e.strength

mutual

/-- Whether every operand of a tree fits its place. -/
def Suits (wraps : Nat → Expr → Bool) : Expr → Prop
  | slot _ | number _ | text _ => True
  | relation _ domain target _ =>
    (Fits wraps 8 domain ∧ domain.Suits wraps) ∧ Fits wraps 8 target ∧ target.Suits wraps
  | property subject _ => Fits wraps 8 subject ∧ subject.Suits wraps
  | method subject _ args => (Fits wraps 8 subject ∧ subject.Suits wraps) ∧ AllSuit wraps args
  | construct _ args | builtin _ args | formula args _ _ => AllSuit wraps args
  | binary op left right =>
    (Fits wraps op.left left ∧ left.Suits wraps) ∧ Fits wraps op.right right ∧ right.Suits wraps
  | negate inner => Fits wraps 5 inner ∧ inner.Suits wraps

def AllSuit (wraps : Nat → Expr → Bool) : List Expr → Prop
  | [] => True
  | e :: rest => e.Suits wraps ∧ AllSuit wraps rest

end

theorem Fits.spells (h : Fits wraps k e) (hts : Spells false e.strength e ts) :
    Spells false k e (enclose (wraps k e) ts) := by
  unfold enclose
  split
  · exact .enclosed (hts.weaken (Nat.zero_le _))
  · rename_i hwraps
    exact hts.weaken (h.resolve_left hwraps)

mutual

/-- What is printed under a policy that suits is written by the rules. -/
theorem spells_tokens : ∀ e : Expr, e.Formed IsUnsigned → e.Suits wraps →
    Spells false e.strength e (e.tokens wraps)
  | slot .domain, _, _ => .domain
  | slot .target, _, _ => .target
  | slot (.param _ _), h, _ => .parameter h.1 h.2
  | relation _ domain target _, h, hsuits =>
      .relation le_rfl h.1 (hsuits.1.1.spells (spells_tokens domain h.2.1 hsuits.1.2))
        (hsuits.2.1.spells (spells_tokens target h.2.2 hsuits.2.2))
  | property subject _, h, hsuits =>
      .property le_rfl h.1 (hsuits.1.spells (spells_tokens subject h.2 hsuits.2))
  | method subject _ args, h, hsuits =>
      .method le_rfl h.1 (hsuits.1.1.spells (spells_tokens subject h.2.1 hsuits.1.2))
        (spells_tokensAll args h.2.2 hsuits.2)
  | construct _ args, h, hsuits => .construct h.1 (spells_tokensAll args h.2 hsuits)
  | number _, h, _ => .number (.inl h)
  | text _, _, _ => .text
  | builtin _ args, h, hsuits => .builtin h.1 (spells_tokensAll args h.2 hsuits)
  | formula args _ _, h, hsuits =>
      .formula h.1 h.2.1 (spells_tokensAll args h.2.2 hsuits) .text (.inl rfl)
  | binary _ left right, h, hsuits =>
      .binary le_rfl (hsuits.1.1.spells (spells_tokens left h.1 hsuits.1.2))
        (hsuits.2.1.spells (spells_tokens right h.2 hsuits.2.2))
  | negate inner, h, hsuits => .negate le_rfl (hsuits.1.spells (spells_tokens inner h hsuits.2))

theorem spells_tokensAll : ∀ args : List Expr, AllFormed IsUnsigned args → AllSuit wraps args →
    SpellsAll false args (tokensAll wraps args)
  | [], _, _ => .nil
  | e :: rest, h, hsuits =>
      have hfits : Fits wraps 0 e := .inr (Nat.zero_le _)
      .cons (hfits.spells (spells_tokens e h.1 hsuits.1)) (spells_tokensAll rest h.2 hsuits.2)

end

/-- Whatever is laid out of what the rules write is parsed as the tree. -/
theorem parse_of_laid (h : Spells false 0 e ts) (hrow : Row IsUnsigned ts)
    (hts : Laid ts logic.toList) : parse logic = .ok e :=
  parse_of_spells (hts.scans hrow.proper hrow.apart) h

/-! ## Fewest parentheses -/

/-- Parentheses stand only around operands that are weaker than their place. -/
def weaker (k : Nat) (e : Expr) : Bool := e.strength < k

theorem fits_weaker (k : Nat) (e : Expr) : Fits weaker k e := by
  unfold Fits weaker
  rw [decide_eq_true_eq]
  exact Nat.lt_or_ge _ _

mutual

theorem suits_weaker : ∀ e : Expr, e.Suits weaker
  | slot _ | number _ | text _ => trivial
  | relation _ domain target _ =>
      ⟨⟨fits_weaker 8 domain, suits_weaker domain⟩, fits_weaker 8 target, suits_weaker target⟩
  | property subject _ => ⟨fits_weaker 8 subject, suits_weaker subject⟩
  | method subject _ args => ⟨⟨fits_weaker 8 subject, suits_weaker subject⟩, allSuit_weaker args⟩
  | construct _ args | builtin _ args | formula args _ _ => allSuit_weaker args
  | binary op left right =>
      ⟨⟨fits_weaker op.left left, suits_weaker left⟩, fits_weaker op.right right, suits_weaker right⟩
  | negate inner => ⟨fits_weaker 5 inner, suits_weaker inner⟩

theorem allSuit_weaker : ∀ args : List Expr, AllSuit weaker args
  | [] => trivial
  | e :: rest => ⟨suits_weaker e, allSuit_weaker rest⟩

end

/-- A tree that is printed with the fewest parentheses, and laid out with any gaps, is parsed as the
tree. -/
theorem parse_printed (h : e.WellFormed) (hlogic : Laid (e.tokens weaker) logic.toList) :
    parse logic = .ok e :=
  parse_of_laid ((spells_tokens e h (suits_weaker e)).weaken (Nat.zero_le _)) (row_tokens weaker e h) hlogic

/-- A comparison of powers and words: one operand is in parentheses, and between the tokens stand a
blank, a tab, a line break or nothing. -/
def comparedAreas : Expr :=
  .binary .ge
    (.negate (.binary .pow (.property (.slot (.param "City" (some "home"))) "area") (.number 2)))
    (.binary .or (.text "a\"b") (.property (.slot .domain) "size"))

theorem parse_comparedAreas :
    comparedAreas.WellFormed ∧
      Laid (comparedAreas.tokens weaker) "-#[home]City.area**2\t>=(\"a\\\"b\"or\n% .size)".toList ∧
      parse "-#[home]City.area**2\t>=(\"a\\\"b\"or\n% .size)" = .ok comparedAreas := by
  have hname : ∀ name ∈ ["area", "size"], IsName name := by
    intro name hmem
    obtain rfl | rfl := by simpa using hmem
    · exact ⟨isWord_iff.mp (by decide), by decide⟩
    · exact ⟨isWord_iff.mp (by decide), by decide⟩
  have hlabel : ∀ name ∈ ["City", "home"], IsLabel name := by
    intro name hmem
    obtain rfl | rfl := by simpa using hmem
    · exact ⟨by decide, List.all_eq_true.mp (by decide)⟩
    · exact ⟨by decide, List.all_eq_true.mp (by decide)⟩
  have hwell : comparedAreas.WellFormed :=
    ⟨⟨⟨hname "area" (by simp), hlabel "City" (by simp), by simpa using hlabel "home" (by simp)⟩,
      2 ^ 52, -51, by decide +kernel⟩, trivial, hname "size" (by simp), trivial⟩
  have hlaid : Laid (comparedAreas.tokens weaker)
      "-#[home]City.area**2\t>=(\"a\\\"b\"or\n% .size)".toList := by
    have hrow := @Laid.token [] _ _ (.mark "-") _ rfl (Token.written_chars _) (by decide) <|
      @Laid.token [] _ _ (.parameter "City" (some "home")) _ rfl (Token.written_chars _) (by decide) <|
      @Laid.token [] _ _ (.mark ".") _ rfl (Token.written_chars _) (by decide) <|
      @Laid.token [] _ _ (.word "area") _ rfl (Token.written_chars _) (by decide) <|
      @Laid.token [] _ _ (.mark "**") _ rfl (Token.written_chars _) (by decide) <|
      @Laid.token [] _ _ (.number 2) _ rfl (Token.written_chars _) (by decide) <|
      @Laid.token ['\t'] _ _ (.mark ">=") _ rfl (Token.written_chars _) (by decide) <|
      @Laid.token [] _ _ (.mark "(") _ rfl (Token.written_chars _) (by decide) <|
      @Laid.token [] _ _ (.text "a\"b") _ rfl (Token.written_chars _) (by decide) <|
      @Laid.token [] _ _ (.word "or") _ rfl (Token.written_chars _) (by decide) <|
      @Laid.token ['\n'] _ _ (.mark "%") _ rfl (Token.written_chars _) (by decide) <|
      @Laid.token [' '] _ _ (.mark ".") _ rfl (Token.written_chars _) (by decide) <|
      @Laid.token [] _ _ (.word "size") _ rfl (Token.written_chars _) (by decide) <|
      @Laid.token [] _ _ (.mark ")") _ rfl (Token.written_chars _) (by decide) <| @Laid.done [] rfl
    refine Eq.mp (congrArg (Laid (comparedAreas.tokens weaker)) ?_) hrow
    decide +kernel
  exact ⟨hwell, hlaid, parse_printed hwell hlaid⟩

end Credence.Expr
