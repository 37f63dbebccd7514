import Credence.Ontology.RuleId
import Credence.Proofs.Decimal.Digits
import Mathlib.Data.List.TakeDrop

/-!
# Written identifiers are read back

The 32 digits of an identifier come out of their groups again, and their number is the identifier.
-/

namespace Credence.RuleId

open Decimal (mem_toDigits)

variable {n : Nat} {c : Char}

/-- The value of the digits so far, with one more behind them. -/
def pushHex (n : Nat) (c : Char) : Option Nat := (Json.hexValue? c).map fun d => 16 * n + d

theorem pushHex_digitChar {k : Nat} (hk : k < 16) (n : Nat) :
    pushHex n (Nat.digitChar k) = some (16 * n + k) := by
  have hvalue : ∀ k, k < 16 → Json.hexValue? (Nat.digitChar k) = some k := by decide
  unfold pushHex
  rw [hvalue k hk]
  rfl

theorem foldlM_pushHex_toDigits (n : Nat) :
    (Nat.toDigits 16 n).foldlM pushHex 0 = some n := by
  induction n using Nat.strongRecOn with
  | ind n ih =>
      rw [Nat.toDigits_eq_if (by omega)]
      split
      · rename_i hsmall
        show (pushHex 0 (Nat.digitChar n)).bind (fun m => [].foldlM pushHex m) = some n
        rw [pushHex_digitChar hsmall, Nat.mul_zero, Nat.zero_add]
        rfl
      · rw [List.foldlM_append, ih (n / 16) (by omega)]
        show (pushHex (n / 16) (Nat.digitChar (n % 16))).bind (fun m => [].foldlM pushHex m) = some n
        rw [pushHex_digitChar (by omega), Nat.div_add_mod]
        rfl

theorem foldlM_pushHex_zeros (k : Nat) : (List.replicate k '0').foldlM pushHex 0 = some 0 := by
  induction k with
  | zero => rfl
  | succ k ih =>
      rw [List.replicate_succ, List.foldlM_cons]
      exact ih

/-- The digits of an identifier spell its number. -/
theorem hexNumber?_digits (id : RuleId) : hexNumber? id.digits = some id.bits.toNat := by
  show (List.replicate _ '0' ++ Nat.toDigits 16 id.bits.toNat).foldlM pushHex 0 = _
  rw [List.foldlM_append, foldlM_pushHex_zeros]
  exact foldlM_pushHex_toDigits id.bits.toNat

theorem length_digits (id : RuleId) : id.digits.length = 32 := by
  have hbits : id.bits.toNat < 16 ^ 32 := id.bits.isLt
  have hle : (Nat.toDigits 16 id.bits.toNat).length ≤ 32 :=
    (Nat.length_toDigits_le_iff (by omega) (by omega)).mpr hbits
  unfold digits
  dsimp only
  rw [List.length_append, List.length_replicate]
  omega

theorem mem_digits {id : RuleId} (hc : c ∈ id.digits) : ∃ k, k < 16 ∧ c = Nat.digitChar k := by
  rcases List.mem_append.mp hc with hc | hc
  · exact ⟨0, by omega, List.eq_of_mem_replicate hc⟩
  · exact mem_toDigits hc

/-! ## Groups of digits -/

/-- The number of digits that groups take. -/
def digitCount (groups : List Nat) : Nat := groups.foldr (· + ·) 0

theorem digitCount_cons (n : Nat) (more : List Nat) :
    digitCount (n :: more) = n + digitCount more := rfl

/-- Digits come out of their groups as they were. -/
theorem ungrouped?_hyphenated (groups : List Nat) (ds : List Char) (hne : groups ≠ [])
    (hlength : digitCount groups = ds.length) : ungrouped? groups (hyphenated groups ds) = some ds := by
  induction groups generalizing ds with
  | nil => exact absurd rfl hne
  | cons n more ih =>
      cases more with
      | nil =>
          change n = ds.length at hlength
          unfold hyphenated ungrouped?
          rw [List.take_of_length_le (Nat.le_of_eq hlength.symm), if_pos hlength.symm]
      | cons m more =>
          rw [digitCount_cons] at hlength
          have hrest := ih (ds.drop n) (List.cons_ne_nil m more) (by rw [List.length_drop]; omega)
          have htake : (ds.take n).length = n := by rw [List.length_take]; omega
          rw [hyphenated, ungrouped?]
          · rw [List.drop_left' htake, List.take_left' htake]
            show (ungrouped? (m :: more) (hyphenated (m :: more) (ds.drop n))).map
              (ds.take n ++ ·) = some ds
            rw [hrest, Option.map_some, List.take_append_drop]
          · exact List.cons_ne_nil m more
          · exact List.cons_ne_nil m more

theorem length_hyphenated (groups : List Nat) (ds : List Char)
    (hlength : digitCount groups = ds.length) :
    (hyphenated groups ds).length = ds.length + (groups.length - 1) := by
  induction groups generalizing ds with
  | nil =>
      change 0 = ds.length at hlength
      rw [hyphenated, ← hlength]
      rfl
  | cons n more ih =>
      cases more with
      | nil =>
          change n = ds.length at hlength
          rw [hyphenated, List.length_take, hlength, Nat.min_self]
          rfl
      | cons m more =>
          rw [digitCount_cons] at hlength
          have hrest := ih (ds.drop n) (by rw [List.length_drop]; omega)
          rw [hyphenated, List.length_append, List.length_cons, hrest, List.length_take,
            List.length_drop, List.length_cons]
          · simp only [List.length_cons]
            omega
          · exact List.cons_ne_nil m more

/-- Every identifier is read back. -/
@[simp] theorem read?_toText (id : RuleId) : read? id.toText = some id := by
  have hlength := length_digits id
  have htext : (hyphenated groups id.digits).length = 36 := by
    rw [length_hyphenated groups id.digits hlength.symm, hlength]
    rfl
  -- the text begins with a digit, so neither with a brace nor with a letter beyond `f`
  obtain ⟨c, rest, hrest, k, hk, rfl⟩ : ∃ c rest, hyphenated groups id.digits = c :: rest ∧
      ∃ k, k < 16 ∧ c = Nat.digitChar k := by
    cases hdigits : id.digits with
    | nil =>
        rw [hdigits] at hlength
        nomatch hlength
    | cons c cs => exact ⟨c, _, rfl, mem_digits (hdigits ▸ List.mem_cons_self)⟩
  have hfirst : ∀ k, k < 16 →
      (Nat.digitChar k).toLower ≠ 'u' ∧ some (Nat.digitChar k) ≠ some '\x7b' := by decide
  unfold toText read?
  rw [String.toList_ofList]
  dsimp only
  rw [if_neg, if_neg]
  · unfold ofDigits?
    rw [htext, if_neg (by decide), ungrouped?_hyphenated groups id.digits (List.cons_ne_nil _ _)
      hlength.symm]
    simp only [Option.bind_eq_bind, Option.bind_some, hexNumber?_digits, Option.pure_def,
      BitVec.ofNat_toNat, BitVec.setWidth_eq]
  · rw [hrest]
    exact fun h => (hfirst k hk).2 h.1
  · rw [hrest]
    exact fun h => (hfirst k hk).1 (List.cons.inj h).1

end Credence.RuleId
