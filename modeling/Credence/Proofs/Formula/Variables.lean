import Credence.Formula.Basic
import Mathlib.Data.List.Infix

/-!
# The variables of a formula

`Formula.vars` collects into an accumulator while it walks through the tree.  This file follows the
walk letter by letter: `letters` lists the letters of a formula from left to right, repetitions and
all, and `vars` picks each of them where it stands first.

Under bindings for all its variables a formula never asks for a letter that has none.  `evaluate?`
is evaluation that stops at such a letter, and it agrees with `evaluate`, which takes zero there.
-/

namespace Credence.Formula

/-- The letters of a formula from left to right. -/
def letters : Formula → List Char
  | number _ => []
  | var v => [v]
  | negate inner => inner.letters
  | combine _ left right => left.letters ++ right.letters

/-- One more letter, if it is new. -/
def addLetter (seen : List Char) (v : Char) : List Char := if v ∈ seen then seen else seen ++ [v]

theorem addVars_eq_foldl (f : Formula) (seen : List Char) :
    f.addVars seen = f.letters.foldl addLetter seen := by
  induction f generalizing seen with
  | number x => rfl
  | var v => rfl
  | negate inner ih => exact ih seen
  | combine op left right ihl ihr => rw [addVars, ihl, ihr, letters, List.foldl_append]

/-! ## First appearances -/

/-- A list has each member of a row once, in the order in which they first appear there. -/
structure FirstAppearances (row firsts : List Char) : Prop where
  mem_iff : ∀ c, c ∈ firsts ↔ c ∈ row
  ordered : firsts.Pairwise fun a b => row.idxOf a < row.idxOf b

variable {row firsts : List Char}

theorem FirstAppearances.nodup (h : FirstAppearances row firsts) : firsts.Nodup :=
  h.ordered.imp fun {a b} hlt (heq : a = b) => absurd hlt (heq ▸ Nat.lt_irrefl _)

/-- One more letter in the row. -/
theorem FirstAppearances.addLetter (h : FirstAppearances row firsts) (v : Char) :
    FirstAppearances (row ++ [v]) (addLetter firsts v) := by
  -- what was there stands where it stood
  have hidx : ∀ c ∈ firsts, (row ++ [v]).idxOf c = row.idxOf c := fun c hc =>
    List.idxOf_append_of_mem ((h.mem_iff c).mp hc)
  have hordered : firsts.Pairwise fun a b => (row ++ [v]).idxOf a < (row ++ [v]).idxOf b :=
    h.ordered.imp_of_mem fun {a b} ha hb hlt => by rwa [hidx a ha, hidx b hb]
  unfold Formula.addLetter
  split
  · rename_i hv
    refine ⟨fun c => ?_, hordered⟩
    rw [List.mem_append, List.mem_singleton, ← h.mem_iff]
    exact ⟨.inl, fun hc => hc.elim id fun hcv => hcv ▸ hv⟩
  · rename_i hv
    refine ⟨fun c => by rw [List.mem_append, List.mem_append, h.mem_iff], ?_⟩
    refine List.pairwise_append.mpr ⟨hordered, List.pairwise_singleton _ v, fun a ha b hb => ?_⟩
    obtain rfl := List.mem_singleton.mp hb
    have hnew : b ∉ row := fun hb => hv ((h.mem_iff b).mpr hb)
    rw [hidx a ha, List.idxOf_append_of_notMem hnew]
    exact Nat.lt_add_right _ (List.idxOf_lt_length_iff.mpr ((h.mem_iff a).mp ha))

theorem FirstAppearances.foldl (h : FirstAppearances row firsts) (more : List Char) :
    FirstAppearances (row ++ more) (more.foldl Formula.addLetter firsts) := by
  induction more generalizing row firsts with
  | nil => rwa [List.append_nil]
  | cons v rest ih =>
      rw [List.append_cons]
      exact ih (h.addLetter v)

/-- The variables of a formula are its letters, each once and in order of first appearance. -/
theorem firstAppearances_vars (f : Formula) : FirstAppearances f.letters f.vars := by
  rw [vars, addVars_eq_foldl]
  exact FirstAppearances.foldl ⟨fun _ => Iff.rfl, .nil⟩ f.letters

/-! ## Bindings -/

/-- The value of a formula, if all its letters are bound. -/
def evaluate? (bindings : List (Char × Float)) : Formula → Option Float
  | number x => some x
  | var v => bindings.lookup v
  | negate inner => (inner.evaluate? bindings).map fun x => -x
  | combine op left right => do
    return op.apply (← left.evaluate? bindings) (← right.evaluate? bindings)

/-- A formula whose letters are bound has the value that takes unbound letters for zero. -/
theorem evaluate?_eq_some {bindings : List (Char × Float)} (f : Formula)
    (h : ∀ c ∈ f.letters, (bindings.lookup c).isSome) :
    f.evaluate? bindings = some (f.evaluate bindings) := by
  induction f with
  | number x => rfl
  | var v =>
      obtain ⟨x, hx⟩ := Option.isSome_iff_exists.mp (h v List.mem_cons_self)
      rw [evaluate?, evaluate, hx, Option.getD_some]
  | negate inner ih => rw [evaluate?, evaluate, ih h, Option.map_some]
  | combine op left right ihl ihr =>
      rw [evaluate?, ihl fun c hc => h c (List.mem_append_left _ hc),
        ihr fun c hc => h c (List.mem_append_right _ hc)]
      rfl

/-- Letters that are put beside as many values are bound. -/
theorem isSome_lookup_zip {cs : List Char} {xs : List Float} (hlength : cs.length = xs.length)
    {c : Char} (hc : c ∈ cs) : ((cs.zip xs).lookup c).isSome := by
  induction cs generalizing xs with
  | nil => nomatch hc
  | cons c' cs ih =>
      cases xs with
      | nil => nomatch hlength
      | cons x xs =>
          rw [List.zip_cons_cons, List.lookup_cons]
          cases heq : c == c' with
          | true => rfl
          | false =>
              rw [List.mem_cons, or_iff_right (beq_eq_false_iff_ne.mp heq)] at hc
              exact ih (Nat.succ.inj hlength) hc

/-- With a value for each variable, evaluation does not need the zero of unbound letters. -/
theorem evaluate?_zip {f : Formula} {xs : List Float} (hlength : f.vars.length = xs.length) :
    f.evaluate? (f.vars.zip xs) = some (f.evaluate (f.vars.zip xs)) :=
  evaluate?_eq_some f fun c hc =>
    isSome_lookup_zip hlength ((f.firstAppearances_vars.mem_iff c).mpr hc)

end Credence.Formula
