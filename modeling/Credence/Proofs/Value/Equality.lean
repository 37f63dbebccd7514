import Mathlib
import Credence.Value.Basic

/-!
# Equality of values

Values are equal when they have the same shape and equal contents, and numbers compare as numbers:
the two zeros are equal, and an undefined number is equal to nothing.  So `==` is symmetric and
transitive, but it is not the equality of the contents, and it is reflexive on those values only in
which no number is undefined.  Lists are compared item by item, so each of these is shown for values
and for lists of values at once.
-/

namespace Credence.Value

mutual

/-- Whether every number in a value is defined. -/
def isDefined : Value → Bool
  | number x => !x.isNaN
  | list items => allDefined items
  | _ => true

def allDefined : List Value → Bool
  | [] => true
  | v :: rest => isDefined v && allDefined rest

end

/-- A value that is not made of numbers or of other values. -/
def isPlain : Value → Bool
  | number _ | list _ => false
  | _ => true

/-- Plain values are equal if they are the same. -/
theorem eq_iff_of_isPlain {a b : Value} (ha : a.isPlain = true) : eq a b = true ↔ a = b := by
  cases a with
  | number x => nomatch ha
  | list items => nomatch ha
  | _ => cases b <;> simp [eq]

mutual

theorem eq_self : ∀ {a : Value}, a.isDefined = true → eq a a = true
  | number x, ha => by
      rw [isDefined, Float.isNaN_eq_decide_eq_nan, Bool.not_eq_true', decide_eq_false_iff_not] at ha
      exact Float.beq_self_iff.mpr ha
  | list as, ha => eqList_self (by simpa [isDefined] using ha)
  | null, _ => rfl
  | bool b, _ => (eq_iff_of_isPlain rfl).mpr rfl
  | text s, _ => (eq_iff_of_isPlain rfl).mpr rfl
  | date d, _ => (eq_iff_of_isPlain rfl).mpr rfl
  | concept name, _ => (eq_iff_of_isPlain rfl).mpr rfl
  | inst key, _ => (eq_iff_of_isPlain rfl).mpr rfl

theorem eqList_self : ∀ {as : List Value}, allDefined as = true → eqList as as = true
  | [], _ => rfl
  | a :: as, h => by
      rw [allDefined, Bool.and_eq_true] at h
      rw [eqList, eq_self h.1, eqList_self h.2]
      rfl

end

mutual

theorem eq_symm {a b : Value} (h : eq a b = true) : eq b a = true := by
  cases a with
  | number x =>
      cases b with
      | number y => exact BEq.symm (α := Float) h
      | _ => nomatch h
  | list as =>
      cases b with
      | list bs => exact eqList_symm h
      | _ => nomatch h
  | _ =>
      obtain rfl := (eq_iff_of_isPlain rfl).mp h
      exact h

theorem eqList_symm {as bs : List Value} (h : eqList as bs = true) : eqList bs as = true := by
  cases as with
  | nil =>
      cases bs with
      | nil => rfl
      | cons b bs => nomatch h
  | cons a as =>
      cases bs with
      | nil => nomatch h
      | cons b bs =>
          rw [eqList, Bool.and_eq_true] at h
          rw [eqList, eq_symm h.1, eqList_symm h.2]
          rfl

end

mutual

theorem eq_trans {a b c : Value} (hab : eq a b = true) (hbc : eq b c = true) : eq a c = true := by
  cases a with
  | number x =>
      cases b with
      | number y =>
          cases c with
          | number z => exact BEq.trans (α := Float) hab hbc
          | _ => nomatch hbc
      | _ => nomatch hab
  | list as =>
      cases b with
      | list bs =>
          cases c with
          | list cs => exact eqList_trans hab hbc
          | _ => nomatch hbc
      | _ => nomatch hab
  | _ =>
      obtain rfl := (eq_iff_of_isPlain rfl).mp hab
      exact hbc

theorem eqList_trans {as bs cs : List Value} (hab : eqList as bs = true)
    (hbc : eqList bs cs = true) : eqList as cs = true := by
  cases as with
  | nil =>
      cases bs with
      | nil => exact hbc
      | cons b bs => nomatch hab
  | cons a as =>
      cases bs with
      | nil => nomatch hab
      | cons b bs =>
          cases cs with
          | nil => nomatch hbc
          | cons c cs =>
              rw [eqList, Bool.and_eq_true] at hab hbc
              rw [eqList, eq_trans hab.1 hbc.1, eqList_trans hab.2 hbc.2]
              rfl

end

instance : PartialEquivBEq Value where
  symm := eq_symm
  trans := eq_trans

/-- A value in which every number is defined is equal to itself. -/
theorem beq_self {v : Value} (hv : v.isDefined = true) : (v == v) = true := eq_self hv

end Credence.Value
