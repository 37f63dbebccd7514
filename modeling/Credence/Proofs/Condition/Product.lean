import Credence.Condition.Scenario
import Credence.Error
import Credence.Proofs.Collection.Table
import Mathlib.Data.List.Forall2
import Mathlib.Data.List.Nodup

/-!
# Scenarios as a product

`Scenario.extend` fills the open slots one after the other and stops early when no scenario is left.
This file compares it with the plain product of the candidates, which knows of no early stop.

The argument has two halves.  `fillAll_eq` says that the two lists are the same whenever the
candidates are at hand, in any monad.  Everything else is about `product` and goes by induction on
the slots: what is in it, how many there are, when they differ, and which positions in the lists of
candidates its members stand for.  The last gives the order: `positions` lists the positions in
ascending lexicographic order, and `product` keeps step with it.
-/

namespace Credence

namespace Scenario

/-! ## Positions -/

/-- The lists of positions in lists of the given lengths. -/
def positions : List Nat → List (List Nat)
  | [] => [[]]
  | n :: rest => (List.range n).flatMap fun i => (positions rest).map (i :: ·)

/-- A position is listed if each of its numbers is below the length that belongs to it. -/
theorem mem_positions {lengths position : List Nat} :
    position ∈ positions lengths ↔ List.Forall₂ (· < ·) position lengths := by
  induction lengths generalizing position with
  | nil => simp [positions]
  | cons n rest ih =>
      simp only [positions, List.mem_flatMap, List.mem_range, List.mem_map, ih]
      constructor
      · rintro ⟨i, hi, position, hposition, rfl⟩
        exact .cons hi hposition
      · rintro (_ | ⟨hi, hposition⟩)
        exact ⟨_, hi, _, hposition, rfl⟩

/-- Positions come in ascending lexicographic order. -/
theorem pairwise_positions (lengths : List Nat) :
    (positions lengths).Pairwise (List.Lex (· < ·)) := by
  induction lengths with
  | nil => simp [positions]
  | cons n rest ih =>
      refine List.pairwise_flatMap.mpr ⟨fun i _ => ?_, ?_⟩
      · exact List.pairwise_map.mpr (ih.imp .cons)
      · refine List.pairwise_lt_range.imp fun {i j} hlt p hp q hq => ?_
        obtain ⟨p, -, rfl⟩ := List.mem_map.mp hp
        obtain ⟨q, -, rfl⟩ := List.mem_map.mp hq
        exact .rel hlt

/-! ## The product -/

variable (values : Slot → List Value)

/-- Every way to fill the slots with their values, the first slot varying slowest. -/
def product : List Slot → Scenario → List Scenario
  | [], s => [s]
  | k :: rest, s => (values k).flatMap fun v => product rest (s.insert k v)

theorem product_singleton (k : Slot) (s : Scenario) :
    product values [k] s = (values k).map fun v => s.insert k v :=
  List.map_eq_flatMap.symm

theorem flatMap_product_fill (k : Slot) (rest : List Slot) (scenarios : List Scenario) :
    (fill k (values k) scenarios).flatMap (product values rest) =
      scenarios.flatMap (product values (k :: rest)) := by
  simp only [fill, product, List.flatMap_assoc, List.flatMap_map]

section Filling

variable {m : Type → Type} [Monad m] [LawfulMonad m] {candidates : Slot → m (List Value)}

/-- One slot is filled, and the others if anything is left. -/
theorem fillAll_cons {k : Slot} (hk : candidates k = pure (values k)) (rest : List Slot)
    (scenarios : List Scenario) :
    fillAll candidates (k :: rest) scenarios =
      if (fill k (values k) scenarios).isEmpty then pure []
      else fillAll candidates rest (fill k (values k) scenarios) := by
  rw [fillAll, hk, pure_bind]

/-- Filling slots gives the product, whether it stops early or not. -/
theorem fillAll_eq {slots : List Slot} (h : ∀ k ∈ slots, candidates k = pure (values k))
    (scenarios : List Scenario) :
    fillAll candidates slots scenarios = pure (scenarios.flatMap (product values slots)) := by
  induction slots generalizing scenarios with
  | nil => simp [fillAll, product]
  | cons k rest ih =>
      obtain ⟨hk, hrest⟩ := List.forall_mem_cons.mp h
      rw [fillAll_cons values hk, ← flatMap_product_fill]
      split
      · rename_i hempty
        rw [List.isEmpty_iff.mp hempty, List.flatMap_nil]
      · exact ih hrest _

end Filling

variable {values} {slots : List Slot} {s s' : Scenario}

/-- What a product is made of, if no slot is filled twice. -/
theorem mem_product (hslots : slots.Nodup) :
    s' ∈ product values slots s ↔
      (∀ k ∈ slots, ∃ v ∈ values k, s'.get? k = some v) ∧
        ∀ k, k ∉ slots → s'.get? k = s.get? k := by
  induction slots generalizing s with
  | nil =>
      simp only [product, List.mem_singleton, List.not_mem_nil, false_implies, implies_true,
        true_and, not_false_eq_true, true_implies]
      exact ⟨fun h k => by rw [h], Table.ext_get?⟩
  | cons k rest ih =>
      obtain ⟨hk, hrest⟩ := List.nodup_cons.mp hslots
      simp only [product, List.mem_flatMap, ih hrest, List.forall_mem_cons, Table.get?_insert]
      constructor
      · rintro ⟨v, hv, hfilled, hkept⟩
        refine ⟨⟨⟨v, hv, by rw [hkept k hk, if_pos rfl]⟩, hfilled⟩, fun q hq => ?_⟩
        rw [List.mem_cons, not_or] at hq
        rw [hkept q hq.2, if_neg hq.1]
      · rintro ⟨⟨⟨v, hv, hget⟩, hfilled⟩, hkept⟩
        refine ⟨v, hv, hfilled, fun q hq => ?_⟩
        by_cases hqk : q = k
        · rw [if_pos hqk, hqk, hget]
        · rw [if_neg hqk, hkept q (by rw [List.mem_cons, not_or]; exact ⟨hqk, hq⟩)]

/-- Different values make different scenarios. -/
theorem nodup_product (hslots : slots.Nodup) (hvalues : ∀ k ∈ slots, (values k).Nodup) :
    (product values slots s).Nodup := by
  induction slots generalizing s with
  | nil => simp [product]
  | cons k rest ih =>
      obtain ⟨hk, hrest⟩ := List.nodup_cons.mp hslots
      obtain ⟨hfirst, hvalues⟩ := List.forall_mem_cons.mp hvalues
      refine List.nodup_flatMap.mpr ⟨fun v _ => ih hrest hvalues, hfirst.imp fun hne => ?_⟩
      intro s' hv hw
      -- the slot filled first keeps its value to the end
      have hgetv := ((mem_product hrest).mp hv).2 k hk
      have hgetw := ((mem_product hrest).mp hw).2 k hk
      rw [hgetv, Table.get?_insert, Table.get?_insert, if_pos rfl, if_pos rfl] at hgetw
      exact hne (Option.some.inj hgetw)

theorem length_product (values : Slot → List Value) (slots : List Slot) (s : Scenario) :
    (product values slots s).length = (slots.map fun k => (values k).length).prod := by
  induction slots generalizing s with
  | nil => rfl
  | cons k rest ih =>
      rw [product, List.length_flatMap, List.map_cons, List.prod_cons]
      simp only [ih, List.map_const', List.sum_replicate_nat]

/-- The values of a scenario stand at a position in the lists of values. -/
def StandsAt (values : Slot → List Value) (slots : List Slot) (position : List Nat)
    (s : Scenario) : Prop :=
  List.Forall₂ (fun i k => ∃ v, (values k)[i]? = some v ∧ s.get? k = some v) position slots

/-- The members of a product stand at the positions, in their order, and fill nothing else. -/
theorem forall₂_positions_product (hslots : slots.Nodup) (s : Scenario) :
    List.Forall₂ (fun p s' => StandsAt values slots p s' ∧ ∀ k, k ∉ slots → s'.get? k = s.get? k)
      (positions (slots.map fun k => (values k).length)) (product values slots s) := by
  induction slots generalizing s with
  | nil => exact .cons ⟨.nil, fun _ _ => rfl⟩ .nil
  | cons k rest ih =>
      obtain ⟨hk, hrest⟩ := List.nodup_cons.mp hslots
      have hvalues : List.Forall₂ (fun i v => (values k)[i]? = some v)
          (List.range (values k).length) (values k) :=
        List.forall₂_iff_get.mpr ⟨List.length_range, fun i _ _ => by simp⟩
      refine List.rel_flatMap hvalues fun i v hv => List.forall₂_map_left_iff.mpr ?_
      refine (ih hrest (s.insert k v)).imp fun p s' ⟨hstands, hkept⟩ => ⟨?_, fun q hq => ?_⟩
      · exact .cons ⟨v, hv, by rw [hkept k hk, Table.get?_insert, if_pos rfl]⟩ hstands
      · rw [List.mem_cons, not_or] at hq
        rw [hkept q hq.2, Table.get?_insert, if_neg hq.1]

/-! ## Extending a scenario -/

/-- The slots of a set that a scenario leaves open, in their order. -/
def openSlots (base : Scenario) (slots : SlotSet) : List Slot :=
  slots.toList.filter fun k => !base.contains k

variable {base : Scenario} {wanted : SlotSet}

theorem mem_openSlots {k : Slot} :
    k ∈ base.openSlots wanted ↔ wanted.has k = true ∧ base.get? k = none := by
  simp [openSlots, List.mem_filter, KeySet.mem_toList_iff, Table.contains]

/-- Open slots come in ascending order. -/
theorem pairwise_openSlots (base : Scenario) (wanted : SlotSet) :
    (base.openSlots wanted).Pairwise fun a b => compare a b = .lt :=
  (List.pairwise_map.mpr wanted.ascending).filter _

theorem nodup_openSlots (base : Scenario) (wanted : SlotSet) : (base.openSlots wanted).Nodup :=
  (Table.keys_nodup wanted).filter _

/-- A scenario is another one with further slots filled from their values, and nothing else. -/
structure Extends (values : Slot → List Value) (base : Scenario) (wanted : SlotSet)
    (s : Scenario) : Prop where
  agrees : ∀ k v, base.get? k = some v → s.get? k = some v
  filled : ∀ k, wanted.has k = true → base.get? k = none → ∃ v ∈ values k, s.get? k = some v
  bound : ∀ k v, s.get? k = some v → base.get? k ≠ none ∨ wanted.has k = true

theorem mem_product_openSlots :
    s ∈ product values (base.openSlots wanted) base ↔ Extends values base wanted s := by
  rw [mem_product (nodup_openSlots base wanted)]
  constructor
  · rintro ⟨hfilled, hkept⟩
    refine ⟨fun k v hv => ?_, fun k hk hopen => hfilled k (mem_openSlots.mpr ⟨hk, hopen⟩),
      fun k v hv => ?_⟩
    · rw [hkept k fun hk => ?_, hv]
      rw [(mem_openSlots.mp hk).2] at hv
      nomatch hv
    · by_cases hk : k ∈ base.openSlots wanted
      · exact .inr (mem_openSlots.mp hk).1
      · exact .inl (by rw [← hkept k hk, hv]; exact Option.some_ne_none v)
  · rintro ⟨hagrees, hfilled, hbound⟩
    refine ⟨fun k hk => hfilled k (mem_openSlots.mp hk).1 (mem_openSlots.mp hk).2, fun k hk => ?_⟩
    cases hbase : base.get? k with
    | some v => exact hagrees k v hbase
    | none =>
        cases hs : s.get? k with
        | none => rfl
        | some v =>
            have hwanted := (hbound k v hs).resolve_left (not_not_intro hbase)
            exact absurd (mem_openSlots.mpr ⟨hwanted, hbase⟩) hk

/-- Extending a scenario gives the product of the candidates of the slots that it leaves open.  The
scenarios are exactly those that keep what is filled and fill each open slot with one of its
candidates; they come in the lexicographic order of the positions that their values have among the
candidates, the slots being compared in ascending order. -/
theorem extend_eq_product {m : Type → Type} [Monad m] [LawfulMonad m]
    (candidates : Slot → m (List Value)) (values : Slot → List Value) (base : Scenario)
    (wanted : SlotSet)
    (h : ∀ k, wanted.has k = true → base.get? k = none → candidates k = pure (values k)) :
    ∃ scenarios, base.extend candidates wanted = pure scenarios ∧
      (∀ s, s ∈ scenarios ↔ Extends values base wanted s) ∧
      (∃ ps : List (List Nat),
        (∀ p, p ∈ ps ↔
          List.Forall₂ (fun i k => i < (values k).length) p (base.openSlots wanted)) ∧
        ps.Pairwise (List.Lex (· < ·)) ∧
        (base.openSlots wanted).Pairwise (fun j k => compare j k = .lt) ∧
        List.Forall₂ (StandsAt values (base.openSlots wanted)) ps scenarios) ∧
      scenarios.length = ((base.openSlots wanted).map fun k => (values k).length).prod ∧
      (base.openSlots wanted = [] → scenarios = [base]) ∧
      ((∃ k ∈ base.openSlots wanted, values k = []) → scenarios = []) ∧
      ((∀ k ∈ base.openSlots wanted, (values k).Nodup) → scenarios.Nodup) := by
  have hslots := nodup_openSlots base wanted
  refine ⟨product values (base.openSlots wanted) base, ?_, fun s => mem_product_openSlots,
    ⟨_, fun p => ?_, pairwise_positions _, pairwise_openSlots base wanted,
      (forall₂_positions_product hslots base).imp fun _ _ h => h.1⟩,
    length_product values _ base, fun hnone => ?_, ?_, nodup_product hslots⟩
  · have hopen : ∀ k ∈ base.openSlots wanted, candidates k = pure (values k) := fun k hk =>
      h k (mem_openSlots.mp hk).1 (mem_openSlots.mp hk).2
    rw [extend, ← openSlots, fillAll_eq values hopen, List.flatMap_singleton]
  · rw [mem_positions, List.forall₂_map_right_iff]
  · rw [hnone]
    rfl
  · rintro ⟨k, hk, hempty⟩
    refine List.eq_nil_iff_forall_not_mem.mpr fun s hs => ?_
    obtain ⟨v, hv, -⟩ := ((mem_product hslots).mp hs).1 k hk
    rw [hempty] at hv
    nomatch hv

/-- Two parameters over two languages each, beside a domain that is in place. -/
theorem extend_eq_product_languages :
    ∃ scenarios, (ofQuery (.text "France") (.text "Brazil")).extend (m := Except Error)
        (fun k => if k.isFree then .ok [.text "French", .text "Portuguese"] else throw (.unbound k))
        (KeySet.ofList [.domain, .param "Language" none, .param "Language" (some "b")]) =
          .ok scenarios ∧ scenarios.length = 4 := by
  obtain ⟨scenarios, hrun, -, -, hlength, -⟩ := extend_eq_product (m := Except Error)
    (fun k => if k.isFree then .ok [.text "French", .text "Portuguese"] else throw (.unbound k))
    (fun _ => [.text "French", .text "Portuguese"]) (ofQuery (.text "France") (.text "Brazil"))
    (KeySet.ofList [.domain, .param "Language" none, .param "Language" (some "b")])
    (by
      intro k hk hopen
      rw [KeySet.has_ofList, decide_eq_true_eq] at hk
      simp only [List.mem_cons, List.not_mem_nil, or_false] at hk
      obtain rfl | rfl | rfl := hk
      · simp [ofQuery] at hopen
      · rfl
      · rfl)
  exact ⟨scenarios, hrun, hlength⟩

end Scenario

end Credence
