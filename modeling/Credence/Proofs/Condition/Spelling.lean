import Credence.Proofs.Condition.Tokens
import Credence.Proofs.Decimal.Finite
import Mathlib.Data.List.Basic

/-!
# The grammar of conditions, as rules

`Spells loose k e ts` says that the tokens `ts` are a way to write the tree `e` where an operand of
strength `k` is expected.  The strengths count the levels of the grammar from the weakest, `or`, to
the strongest, what needs no operator.  A tree that is weaker than its place stands in parentheses,
and any tree may.

The `loose` rules allow what the grammar takes but what need not be written: a word may stand for
itself as a text, the formula of an `f` may stand as it is, and a number may be too large to be
finite. The strict rules write texts and formulas as quotations, and finite numbers only.
-/

namespace Credence

/-! ## Strengths -/

namespace Operator

/-- How strongly an operator binds. -/
def strength : Operator → Nat
  | or => 0
  | and => 1
  | eq | ne | gt | lt | ge | le | is | isNot => 2
  | add | sub => 3
  | mul | div | floorDiv | mod => 4
  | pow => 6

/-- The strength that the left operand must have: operators group to the left, but the base of a
power is a relational operand. -/
def left : Operator → Nat
  | pow => 7
  | op => op.strength

/-- The strength that the right operand must have: the exponent of a power may have signs. -/
def right : Operator → Nat
  | pow => 5
  | op => op.strength + 1

def tokens : Operator → List Expr.Token
  | or => [.word "or"]
  | and => [.word "and"]
  | is => [.word "is"]
  | isNot => [.word "is", .word "not"]
  | op => [.mark op.symbol]

end Operator

namespace Expr

open Grammar (IsName IsLabel takes)

/-- How strongly the parts of a tree hold together. -/
def strength : Expr → Nat
  | binary op _ _ => op.strength
  | negate _ => 5
  | relation _ _ _ _ => 7
  | property _ _ | method _ _ _ => 8
  | slot _ | construct _ _ | number _ | text _ | builtin _ _ | formula _ _ _ => 9

/-- The sign on both sides of the name of a relation. -/
def linkMark (negated : Bool) : String := if negated then "-" else "="

/-- What stands between an argument and further ones. -/
def separator (further : List Expr) : List Token := if further.isEmpty then [] else [.mark ","]

/-! ## The rules -/

mutual

/-- Tokens write a tree where an operand of a strength is expected. -/
inductive Spells (loose : Bool) : Nat → Expr → List Token → Prop
  | enclosed {k : Nat} {e : Expr} {ts : List Token} (inner : Spells loose 0 e ts) :
      Spells loose k e (.mark "(" :: ts ++ [.mark ")"])
  | domain {k : Nat} : Spells loose k (.slot .domain) [.mark "%"]
  | target {k : Nat} : Spells loose k (.slot .target) [.mark "@"]
  | parameter {k : Nat} {concept : String} {tag : Option String} (hconcept : IsLabel concept)
      (htag : ∀ t ∈ tag, IsLabel t) :
      Spells loose k (.slot (.param concept tag)) [.parameter concept tag]
  | number {k : Nat} {x : Float}
      (hx : Decimal.IsUnsigned x ∨ loose = true ∧ Decimal.IsOverflow x) :
      Spells loose k (.number x) [.number x]
  | text {k : Nat} {s : String} : Spells loose k (.text s) [.text s]
  | bare {k : Nat} {s : String} (hloose : loose = true) (hname : IsName s) :
      Spells loose k (.text s) [.word s]
  | construct {k : Nat} {concept : String} {args : List Expr} {ts : List Token}
      (hconcept : IsLabel concept) (hargs : SpellsAll loose args ts) :
      Spells loose k (.construct concept args)
        (.parameter concept none :: .mark "(" :: ts ++ [.mark ")"])
  | builtin {k : Nat} {function : Builtin} {args : List Expr} {ts : List Token}
      (htakes : takes function args = true) (hargs : SpellsAll loose args ts) :
      Spells loose k (.builtin function args)
        (.word function.name :: .mark "(" :: ts ++ [.mark ")"])
  | formula {k : Nat} {args : List Expr} {last : Expr} {body : Formula} {source : String}
      {ts us : List Token} (hbody : Formula.parse source.toList = .ok body)
      (hvars : body.vars.length = args.length) (hargs : SpellsAll loose args ts)
      (hlast : Spells loose 0 last us)
      (hsource : last = .text source ∨ loose = true ∧ ∀ s, last ≠ .text s) :
      Spells loose k (.formula args body source)
        (.word "f" :: .mark "(" :: (ts ++ separator args ++ us) ++ [.mark ")"])
  | property {k : Nat} {subject : Expr} {key : String} {ts : List Token} (hk : k ≤ 8)
      (hkey : IsName key) (hsubject : Spells loose 8 subject ts) :
      Spells loose k (.property subject key) (ts ++ [.mark ".", .word key])
  | method {k : Nat} {subject : Expr} {name : String} {args : List Expr} {ts us : List Token}
      (hk : k ≤ 8) (hname : IsName name) (hsubject : Spells loose 8 subject ts)
      (hargs : SpellsAll loose args us) :
      Spells loose k (.method subject name args)
        (ts ++ (.mark "." :: .word name :: .mark "(" :: us ++ [.mark ")"]))
  | relation {k : Nat} {name : String} {domain target : Expr} {negated : Bool}
      {ts us : List Token} (hk : k ≤ 7) (hname : IsName name)
      (hdomain : Spells loose 8 domain ts) (htarget : Spells loose 8 target us) :
      Spells loose k (.relation name domain target negated)
        (ts ++ .mark (linkMark negated) :: .word name :: .mark (linkMark negated) :: us)
  | negate {k : Nat} {e : Expr} {ts : List Token} (hk : k ≤ 5) (inner : Spells loose 5 e ts) :
      Spells loose k (.negate e) (.mark "-" :: ts)
  | binary {k : Nat} {op : Operator} {left right : Expr} {ts us : List Token}
      (hk : k ≤ op.strength) (hleft : Spells loose op.left left ts)
      (hright : Spells loose op.right right us) :
      Spells loose k (.binary op left right) (ts ++ op.tokens ++ us)

/-- Tokens write arguments with commas between them. -/
inductive SpellsAll (loose : Bool) : List Expr → List Token → Prop
  | nil : SpellsAll loose [] []
  | cons {e : Expr} {es : List Expr} {ts us : List Token} (first : Spells loose 0 e ts)
      (others : SpellsAll loose es us) : SpellsAll loose (e :: es) (ts ++ separator es ++ us)

end

variable {loose : Bool} {k k' : Nat} {e : Expr} {args : List Expr} {ts us more : List Token}

/-- What holds in a place holds in a weaker one. -/
theorem Spells.weaken (h : Spells loose k e ts) (hk : k' ≤ k) : Spells loose k' e ts := by
  cases h with
  | enclosed inner => exact .enclosed inner
  | domain => exact .domain
  | target => exact .target
  | parameter hconcept htag => exact .parameter hconcept htag
  | number hx => exact .number hx
  | text => exact .text
  | bare hloose hname => exact .bare hloose hname
  | construct hconcept hargs => exact .construct hconcept hargs
  | builtin htakes hargs => exact .builtin htakes hargs
  | formula hbody hvars hargs hlast hsource => exact .formula hbody hvars hargs hlast hsource
  | property hk' hkey hsubject => exact .property (hk.trans hk') hkey hsubject
  | method hk' hname hsubject hargs => exact .method (hk.trans hk') hname hsubject hargs
  | relation hk' hname hdomain htarget => exact .relation (hk.trans hk') hname hdomain htarget
  | negate hk' inner => exact .negate (hk.trans hk') inner
  | binary hk' hleft hright => exact .binary (hk.trans hk') hleft hright

/-- What holds in a place and in no stronger one has the strength of the place. -/
theorem Spells.strength_eq (h : Spells loose k e ts) (hmax : ¬ Spells loose (k + 1) e ts) :
    e.strength = k := by
  cases h with
  | enclosed inner => exact absurd (.enclosed inner) hmax
  | domain => exact absurd .domain hmax
  | target => exact absurd .target hmax
  | parameter hconcept htag => exact absurd (.parameter hconcept htag) hmax
  | number hx => exact absurd (.number hx) hmax
  | text => exact absurd .text hmax
  | bare hloose hname => exact absurd (.bare hloose hname) hmax
  | construct hconcept hargs => exact absurd (.construct hconcept hargs) hmax
  | builtin htakes hargs => exact absurd (.builtin htakes hargs) hmax
  | formula hbody hvars hargs hlast hsource =>
      exact absurd (.formula hbody hvars hargs hlast hsource) hmax
  | property hk hkey hsubject =>
      by_contra hne
      exact hmax (.property (lt_of_le_of_ne hk (Ne.symm hne)) hkey hsubject)
  | method hk hname hsubject hargs =>
      by_contra hne
      exact hmax (.method (lt_of_le_of_ne hk (Ne.symm hne)) hname hsubject hargs)
  | relation hk hname hdomain htarget =>
      by_contra hne
      exact hmax (.relation (lt_of_le_of_ne hk (Ne.symm hne)) hname hdomain htarget)
  | negate hk inner =>
      by_contra hne
      exact hmax (.negate (lt_of_le_of_ne hk (Ne.symm hne)) inner)
  | binary hk hleft hright =>
      by_contra hne
      exact hmax (.binary (lt_of_le_of_ne hk (Ne.symm hne)) hleft hright)

/-- One more argument. -/
theorem SpellsAll.concat (hts : SpellsAll loose args ts) (hus : Spells loose 0 e us) :
    SpellsAll loose (args ++ [e]) (ts ++ separator args ++ us) := by
  induction args generalizing ts with
  | nil =>
      cases hts
      simpa [separator] using SpellsAll.cons hus .nil
  | cons e' es ih =>
      cases hts with
      | @cons e' es ts' us' first others =>
          have hcons := SpellsAll.cons first (ih others)
          cases es with
          | nil =>
              cases others
              simpa [separator] using hcons
          | cons e'' es => simpa [separator] using hcons

/-! ## What an operand begins with -/

/-- The tokens that an operand begins with under the strict rules: a word is a function with its
arguments. -/
def BeginsOperand : List Token → Prop
  | .number _ :: _ | .text _ :: _ | .parameter _ _ :: _ => True
  | .mark m :: _ => m = "%" ∨ m = "@" ∨ m = "(" ∨ m = "-"
  | .word w :: .mark m :: _ => w ≠ "not" ∧ m = "("
  | _ => False

theorem BeginsOperand.append (h : BeginsOperand ts) (more : List Token) :
    BeginsOperand (ts ++ more) := by
  match ts, h with
  | .number _ :: _, h | .text _ :: _, h | .parameter _ _ :: _, h | .mark _ :: _, h
  | .word _ :: .mark _ :: _, h => exact h

theorem BeginsOperand.length_pos (h : BeginsOperand ts) : 0 < ts.length := by
  cases ts with
  | nil => exact h.elim
  | cons t ts => simp

theorem Spells.begins {k : Nat} {e : Expr} {ts : List Token} (h : Spells false k e ts) :
    BeginsOperand ts := by
  cases h with
  | enclosed inner => exact .inr (.inr (.inl rfl))
  | domain => exact .inl rfl
  | target => exact .inr (.inl rfl)
  | parameter hconcept htag => trivial
  | number hx => trivial
  | text => trivial
  | bare hloose hname => exact nomatch hloose
  | construct hconcept hargs => trivial
  | @builtin k function args ts htakes hargs =>
      refine ⟨?_, rfl⟩
      cases function <;> decide
  | formula hbody hvars hargs hlast hsource => exact ⟨by decide, rfl⟩
  | property hk hkey hsubject => exact (Spells.begins hsubject).append _
  | method hk hname hsubject hargs => exact (Spells.begins hsubject).append _
  | relation hk hname hdomain htarget => exact (Spells.begins hdomain).append _
  | negate hk inner => exact .inr (.inr (.inr rfl))
  | binary hk hleft hright =>
      rw [List.append_assoc]
      exact (Spells.begins hleft).append _

theorem Spells.ne_nil (h : Spells loose k e ts) : ts ≠ [] := by
  cases h with
  | @binary k op left right ts us hk hleft hright => cases op <;> simp [Operator.tokens]
  | _ => simp

/-- An operand that is stronger than the minus sign does not begin with one. -/
theorem Spells.head?_ne_minus {k : Nat} {e : Expr} {ts : List Token} (h : Spells false k e ts)
    (hk : 6 ≤ k) : ts.head? ≠ some (.mark "-") := by
  cases h with
  | enclosed inner => simp
  | domain => simp
  | target => simp
  | parameter hconcept htag => simp
  | number hx => simp
  | text => simp
  | bare hloose hname => exact nomatch hloose
  | construct hconcept hargs => simp
  | builtin htakes hargs => simp
  | formula hbody hvars hargs hlast hsource => simp
  | property hk' hkey hsubject =>
      rw [List.head?_append_of_ne_nil _ hsubject.ne_nil]
      exact Spells.head?_ne_minus hsubject (by decide)
  | method hk' hname hsubject hargs =>
      rw [List.head?_append_of_ne_nil _ hsubject.ne_nil]
      exact Spells.head?_ne_minus hsubject (by decide)
  | relation hk' hname hdomain htarget =>
      rw [List.head?_append_of_ne_nil _ hdomain.ne_nil]
      exact Spells.head?_ne_minus hdomain (by decide)
  | negate hk' inner => omega
  | @binary k op left right ts us hk' hleft hright =>
      rw [List.append_assoc, List.head?_append_of_ne_nil _ hleft.ne_nil]
      refine Spells.head?_ne_minus hleft ?_
      have hpow : op = .pow := by
        cases op with
        | pow => rfl
        | or | and | eq | ne | gt | lt | ge | le | is | isNot | add | sub | mul | div | floorDiv
        | mod => exact absurd (hk.trans hk') (by decide)
      subst hpow
      decide

theorem SpellsAll.length_le (h : SpellsAll false args ts) : args.length ≤ ts.length := by
  induction args generalizing ts with
  | nil => simp
  | cons e es ih =>
      cases h with
      | cons first others =>
          have hpos := first.begins.length_pos
          have hle := ih others
          simp only [List.length_append, List.length_cons]
          omega

end Expr

end Credence
