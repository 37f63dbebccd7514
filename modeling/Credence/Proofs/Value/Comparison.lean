import Credence.Condition.Arithmetic
import Credence.Proofs.Decimal.Order
import Credence.Proofs.Value.Equality

/-!
# Coherence of the comparisons

The three comparisons are given by tables over pairs of kinds, and each table has its own crossings
between kinds: a text is equal to the number it spells and ordered against it as a number, but is
ordered against another text by its letters.  The tables agree all the same.  Equality across kinds
is the equality of values together with four one-way crossings; identity is the equality of values;
and values that are equal are not ordered before or after one another.
-/

namespace Credence.Value

open Decimal

/-! ## Numbers -/

/-- The order of two numbers is the order of their ranks; there is none if one of them is
undefined. -/
theorem compareNumbers?_eq (x y : Float) :
    compareNumbers? x y =
      if x.isNaN || y.isNaN then none else some (compare (rank x) (rank y)) := by
  unfold compareNumbers?
  by_cases h : (x.isNaN || y.isNaN) = true
  · rw [if_pos h]
    rw [Bool.or_eq_true] at h
    have hxy := compare_eq_none h
    have hyx := compare_eq_none h.symm
    simp [lt_iff_compare, beq_iff_compare, hxy, hyx]
  · rw [if_neg h]
    simp only [Bool.or_eq_true, not_or, Bool.not_eq_true] at h
    obtain ⟨hx, hy⟩ := h
    simp only [lt_iff_rank hx hy, lt_iff_rank hy hx, beq_iff_rank hx hy]
    rcases lt_trichotomy (rank x) (rank y) with hlt | heq | hgt
    · rw [if_pos hlt, compare_lt_iff_lt.mpr hlt]
    · rw [if_neg heq.not_lt, if_neg heq.not_gt, if_pos heq, compare_eq_iff_eq.mpr heq]
    · rw [if_neg hgt.not_gt, if_pos hgt, compare_gt_iff_gt.mpr hgt]

theorem compareNumbers?_swap (x y : Float) :
    compareNumbers? y x = (compareNumbers? x y).map Ordering.swap := by
  rw [compareNumbers?_eq, compareNumbers?_eq, Bool.or_comm]
  split
  · rfl
  · rw [Option.map_some, ← Std.OrientedOrd.eq_swap]

/-- Numbers that are equal are ordered as equal. -/
theorem compareNumbers?_of_beq {x y : Float} (h : (x == y) = true) :
    compareNumbers? x y = some .eq := by
  have hxy : ¬ x < y := by
    rw [lt_iff_compare, beq_iff_compare.mp h]
    decide
  have hyx : ¬ y < x := by
    rw [lt_iff_compare, beq_iff_compare.mp (BEq.symm h)]
    decide
  rw [compareNumbers?, if_neg hxy, if_neg hyx, if_pos h]

/-! ## Equality across kinds -/

/-- What a value counts for in another kind: a reference for its name, a text for the number it
spells, a boolean for one or zero. -/
def countsFor : Value → Value → Bool
  | inst key, text s => key.name == s
  | concept name, text s => name == s
  | text s, number x => spells s x
  | bool b, number x => indicator b == x
  | _, _ => false

theorem beq_eq (a b : Value) : (a == b) = eq a b := rfl

/-- Values are equal across kinds if they are equal or one counts for the other. -/
theorem looseEq_eq (a b : Value) : looseEq a b = (countsFor a b || countsFor b a || a == b) := by
  cases a <;> cases b <;> simp [looseEq, countsFor, beq_eq, eq]

theorem looseEq_comm (a b : Value) : looseEq a b = looseEq b a := by
  rw [looseEq_eq, looseEq_eq, Bool.or_comm (countsFor a b), BEq.comm]

/-! ## Identity -/

/-- References of two kinds are never equal as values, so identity is the equality of values. -/
theorem identical_eq (a b : Value) : identical a b = (a == b) := by
  show _ = eq a b
  cases a <;> cases b <;> rfl

theorem identical_comm (a b : Value) : identical a b = identical b a := by
  rw [identical_eq, identical_eq, BEq.comm]

theorem looseEq_of_identical {a b : Value} (h : identical a b = true) : looseEq a b = true := by
  rw [identical_eq] at h
  rw [looseEq_eq, h, Bool.or_true]

/-! ## Order -/

/-- Values that are not both texts or both dates are ordered as the numbers that they stand for. -/
theorem compare?_eq_numbers {a b : Value} (htext : ∀ s t, a = text s → b ≠ text t)
    (hdate : ∀ d e, a = date d → b ≠ date e) :
    compare? a b =
      (asNumber? a).bind fun x => (asNumber? b).bind fun y => compareNumbers? x y := by
  rw [compare?]
  · rfl
  · exact htext
  · exact hdate

theorem date_compare_swap (d e : Date) : compare e d = (compare d e).swap := by
  show ((compare e.year d.year).then ((compare e.month d.month).then (compare e.day d.day))) =
    ((compare d.year e.year).then ((compare d.month e.month).then (compare d.day e.day))).swap
  rw [Ordering.swap_then, Ordering.swap_then, ← Std.OrientedOrd.eq_swap, ← Std.OrientedOrd.eq_swap,
    ← Std.OrientedOrd.eq_swap]

theorem date_compare_self (d : Date) : compare d d = .eq := by
  have hswap := date_compare_swap d d
  cases h : compare d d <;> rw [h] at hswap <;> first | rfl | cases hswap

/-- The order of two values, read the other way round, is the reverse. -/
theorem compare?_swap (a b : Value) : compare? b a = (compare? a b).map Ordering.swap := by
  by_cases htext : ∃ s t, a = text s ∧ b = text t
  · obtain ⟨s, t, rfl, rfl⟩ := htext
    show some (compare t s) = some (compare s t).swap
    rw [← Std.OrientedOrd.eq_swap]
  · by_cases hdate : ∃ d e, a = date d ∧ b = date e
    · obtain ⟨d, e, rfl, rfl⟩ := hdate
      show some (compare e d) = some (compare d e).swap
      rw [date_compare_swap]
    · rw [compare?_eq_numbers (fun s t ha hb => htext ⟨s, t, ha, hb⟩)
          (fun d e ha hb => hdate ⟨d, e, ha, hb⟩),
        compare?_eq_numbers (fun s t hb ha => htext ⟨t, s, ha, hb⟩)
          (fun d e hb ha => hdate ⟨e, d, ha, hb⟩)]
      cases asNumber? a with
      | none => cases asNumber? b <;> rfl
      | some x =>
          cases asNumber? b with
          | none => rfl
          | some y => exact compareNumbers?_swap x y

/-! ## Equal values are not before or after one another -/

theorem indicator_beq_self (b : Bool) : (indicator b == indicator b) = true := by
  cases b <;> decide +kernel

/-- A text that spells a number is ordered as equal to it. -/
theorem compare?_of_spells {s : String} {x : Float} (h : spells s x = true) :
    compare? (text s) (number x) = some .eq := by
  have hnumbers : compare? (text s) (number x) =
      (asNumber? (text s)).bind fun y => compareNumbers? y x :=
    compare?_eq_numbers (by simp) (by simp)
  rw [spells] at h
  rw [hnumbers]
  cases hread : asNumber? (text s) with
  | none =>
      rw [hread] at h
      nomatch h
  | some y =>
      rw [hread] at h
      exact compareNumbers?_of_beq h

/-- A value and what it counts for are ordered as equal, if they are ordered at all. -/
theorem compare?_of_countsFor {a b : Value} (h : countsFor a b = true) :
    ∀ o ∈ compare? a b, o = .eq := by
  intro o ho
  unfold countsFor at h
  split at h
  · exact absurd ho (Option.not_mem_none o)
  · exact absurd ho (Option.not_mem_none o)
  · rw [compare?_of_spells h] at ho
    exact (Option.some_inj.mp ho).symm
  · rename_i b x
    have hnumbers : compare? (bool b) (number x) = compareNumbers? (indicator b) x := rfl
    rw [hnumbers, compareNumbers?_of_beq h] at ho
    exact (Option.some_inj.mp ho).symm
  · nomatch h

/-- Equal values are ordered as equal, if they are ordered at all. -/
theorem compare?_of_beq {a b : Value} (h : (a == b) = true) : ∀ o ∈ compare? a b, o = .eq := by
  intro o ho
  cases a with
  | number x =>
      cases b with
      | number y =>
          have hcompare : compare? (number x) (number y) = compareNumbers? x y := rfl
          rw [hcompare, compareNumbers?_of_beq h] at ho
          exact (Option.some_inj.mp ho).symm
      | _ => nomatch h
  | list as =>
      cases b with
      | list bs => exact absurd ho (Option.not_mem_none o)
      | _ => nomatch h
  | bool b =>
      obtain rfl := (eq_iff_of_isPlain rfl).mp h
      have hcompare : compare? (bool b) (bool b) = compareNumbers? (indicator b) (indicator b) := rfl
      rw [hcompare, compareNumbers?_of_beq (indicator_beq_self b)] at ho
      exact (Option.some_inj.mp ho).symm
  | text s =>
      obtain rfl := (eq_iff_of_isPlain rfl).mp h
      calc o = compare s s := (Option.some_inj.mp ho).symm
        _ = .eq := Std.ReflOrd.compare_self
  | date d =>
      obtain rfl := (eq_iff_of_isPlain rfl).mp h
      calc o = compare d d := (Option.some_inj.mp ho).symm
        _ = .eq := date_compare_self d
  | null | concept name | inst key =>
      obtain rfl := (eq_iff_of_isPlain rfl).mp h
      exact absurd ho (Option.not_mem_none o)

/-- Values that are equal across kinds are ordered as equal, if they are ordered at all. -/
theorem compare?_of_looseEq {a b : Value} (h : looseEq a b = true) :
    ∀ o ∈ compare? a b, o = .eq := by
  rw [looseEq_eq, Bool.or_eq_true, Bool.or_eq_true] at h
  rcases h with (hab | hba) | hbeq
  · exact compare?_of_countsFor hab
  · intro o ho
    have hswap : o.swap ∈ compare? b a := by
      rw [compare?_swap a b, Option.mem_def, Option.mem_def.mp ho]
      rfl
    exact Ordering.swap_eq_eq.mp (compare?_of_countsFor hba _ hswap)
  · exact compare?_of_beq hbeq

end Credence.Value

/-! ## The operators -/

namespace Credence.Operator

variable {a b : Value}

theorem apply_eq_true_iff : eq.apply a b = .bool true ↔ a.looseEq b = true := by
  show Value.bool _ = .bool true ↔ _
  rw [Value.bool.injEq]

theorem apply_lt : lt.apply a b = ((a.compare? b).map fun o => Value.bool o.isLT).getD .null := rfl

theorem apply_gt : gt.apply a b = ((a.compare? b).map fun o => Value.bool o.isGT).getD .null := rfl

/-- Before and after are one relation, read from either side. -/
theorem apply_lt_swap (a b : Value) : lt.apply a b = gt.apply b a := by
  rw [apply_lt, apply_gt, Value.compare?_swap a b]
  rcases a.compare? b with - | o
  · rfl
  · cases o <;> rfl

/-- Equal values are not before one another. -/
theorem apply_lt_ne_true_of_eq (h : eq.apply a b = .bool true) : lt.apply a b ≠ .bool true := by
  rw [apply_eq_true_iff] at h
  rw [apply_lt]
  intro hlt
  cases ho : a.compare? b with
  | none =>
      rw [ho] at hlt
      nomatch hlt
  | some o =>
      obtain rfl := Value.compare?_of_looseEq h o ho
      rw [ho] at hlt
      nomatch hlt

end Credence.Operator

namespace Credence.Value

/-- The comparisons of the language agree on all values.  Equality across kinds and identity do not
depend on the side from which they are read, and identity is the stronger one.  The order read the
other way round is the reverse.  Values that are equal across kinds are ordered as equal, if they
are ordered at all, so that no condition finds them equal and one before the other. -/
theorem comparisons_agree (a b : Value) :
    looseEq a b = looseEq b a ∧
    identical a b = identical b a ∧
    (identical a b = true → looseEq a b = true) ∧
    compare? b a = (compare? a b).map Ordering.swap ∧
    (looseEq a b = true → ∀ o, compare? a b = some o → o = .eq) ∧
    (Operator.eq.apply a b = .bool true →
      Operator.lt.apply a b ≠ .bool true ∧ Operator.gt.apply a b ≠ .bool true) := by
  refine ⟨looseEq_comm a b, identical_comm a b, looseEq_of_identical, compare?_swap a b,
    fun h o ho => compare?_of_looseEq h o ho, ?_⟩
  intro h
  constructor
  · exact Operator.apply_lt_ne_true_of_eq h
  · have hba : Operator.eq.apply b a = .bool true := by
      rw [Operator.apply_eq_true_iff] at h ⊢
      rw [looseEq_comm, h]
    rw [← Operator.apply_lt_swap]
    exact Operator.apply_lt_ne_true_of_eq hba

/-- True is the same as itself, and equal to the number one but not before it. -/
theorem comparisons_agree_true :
    looseEq (bool true) (bool true) = true ∧ compare? (bool true) (number 1) = some .eq ∧
      Operator.lt.apply (bool true) (number 1) ≠ .bool true := by
  have hself : identical (bool true) (bool true) = true := rfl
  have hone : looseEq (bool true) (number 1) = true := by decide +kernel
  obtain ⟨-, -, hidentical, -, -, -⟩ := comparisons_agree (bool true) (bool true)
  obtain ⟨-, -, -, -, hequal, hoperators⟩ := comparisons_agree (bool true) (number 1)
  refine ⟨hidentical hself, ?_, (hoperators ?_).1⟩
  · obtain ⟨o, ho⟩ : ∃ o, compare? (bool true) (number 1) = some o :=
      Option.isSome_iff_exists.mp (by decide +kernel)
    rw [ho, hequal hone o ho]
  · exact Operator.apply_eq_true_iff.mpr hone

end Credence.Value
