import Credence.Condition.Evaluation
import Credence.Proofs.Condition.Slots
import Mathlib.Data.List.Forall2

/-!
# What an evaluation reads of its scenario

A condition is evaluated in a scenario that may fill many more slots than the condition mentions.
This file compares two evaluations of one condition, in scenarios that agree on the slots which
stand somewhere in it, and shows that they are one and the same computation.

A `count` makes the two runs work in scenarios of their own.  Whether a slot is open is read off the
outer scenario, so the two runs open the same slots, ask for the same candidates in the same order,
and go through two lists of scenarios that agree pair by pair (`fillAll_bind_congr`).  This is why
the slots that a `count` ranges over have to be mentioned too, although the tree does not ask for
them: where the outer scenario fills one, there is nothing to range over.
-/

namespace Credence

namespace Scenario

variable {P Q : Slot → Prop} {s s' : Scenario} {ss ss' : List Scenario} {k : Slot} {v : Value}

/-- Two scenarios agree on slots: each of these has the same value in both, or is open in both. -/
def AgreeOn (P : Slot → Prop) (s s' : Scenario) : Prop := ∀ k, P k → s.get? k = s'.get? k

theorem AgreeOn.mono (h : AgreeOn P s s') (hQ : ∀ k, Q k → P k) : AgreeOn Q s s' :=
  fun k hk => h k (hQ k hk)

theorem AgreeOn.contains_eq (h : AgreeOn P s s') (hk : P k) : s.contains k = s'.contains k :=
  congrArg Option.isSome (h k hk)

theorem AgreeOn.insert (h : AgreeOn P s s') (k : Slot) (v : Value) :
    AgreeOn P (s.insert k v) (s'.insert k v) := by
  intro q hq
  rw [Table.get?_insert, Table.get?_insert, h q hq]

/-- What is put into other slots makes no difference. -/
theorem agreeOn_insert (hk : ¬ P k) : AgreeOn P (s.insert k v) s := by
  intro q hq
  rw [Table.get?_insert, if_neg]
  rintro rfl
  exact hk hq

theorem agreeOn_erase (hk : ¬ P k) : AgreeOn P (s.erase k) s := by
  intro q hq
  rw [Table.get?_erase, if_neg]
  rintro rfl
  exact hk hq

/-! ## Filling slots -/

theorem forall₂_fill (h : List.Forall₂ (AgreeOn P) ss ss') (k : Slot) (values : List Value) :
    List.Forall₂ (AgreeOn P) (fill k values ss) (fill k values ss') := by
  induction h with
  | nil => exact .nil
  | cons first _ ih =>
      refine List.rel_append ?_ ih
      refine List.forall₂_map_left_iff.mpr (List.forall₂_map_right_iff.mpr ?_)
      exact List.forall₂_same.mpr fun v _ => first.insert k v

section Filling

variable {m : Type → Type} [Monad m] [LawfulMonad m] {α : Type}
  {candidates : Slot → m (List Value)} {f g : List Scenario → m α}

/-- Two lists of scenarios that agree pair by pair are filled by the same requests. -/
theorem fillAll_bind_congr (slots : List Slot) (h : List.Forall₂ (AgreeOn P) ss ss')
    (hfg : ∀ rs rs', List.Forall₂ (AgreeOn P) rs rs' → f rs = g rs') :
    fillAll candidates slots ss >>= f = fillAll candidates slots ss' >>= g := by
  induction slots generalizing ss ss' with
  | nil => simpa only [fillAll, pure_bind] using hfg ss ss' h
  | cons k rest ih =>
      simp only [fillAll, bind_assoc]
      refine bind_congr fun values => ?_
      have hfilled := forall₂_fill h k values
      have hempty : (fill k values ss).isEmpty = (fill k values ss').isEmpty := by
        rw [Bool.eq_iff_iff, List.isEmpty_iff_length_eq_zero, List.isEmpty_iff_length_eq_zero,
          hfilled.length_eq]
      rw [hempty]
      split
      · simpa only [pure_bind] using hfg [] [] .nil
      · exact ih hfilled

/-- Scenarios that agree on the slots to fill leave the same ones open. -/
theorem extend_bind_congr {slots : SlotSet} (h : AgreeOn P s s')
    (hslots : ∀ k, slots.has k = true → P k)
    (hfg : ∀ rs rs', List.Forall₂ (AgreeOn P) rs rs' → f rs = g rs') :
    extend candidates s slots >>= f = extend candidates s' slots >>= g := by
  have hopen : (slots.toList.filter fun k => !s.contains k) =
      slots.toList.filter fun k => !s'.contains k :=
    List.filter_congr fun k hk => by
      rw [h.contains_eq (hslots k (KeySet.mem_toList_iff.mp hk))]
  unfold extend
  rw [hopen]
  exact fillAll_bind_congr _ (.cons h .nil) hfg

end Filling

end Scenario

namespace Expr

open Scenario (AgreeOn)

variable {m : Type → Type} [Monad m] {s s' : Scenario} {P : Slot → Prop}

theorem countWhere_congr {test : Scenario → m Bool} {ss ss' : List Scenario}
    (h : List.Forall₂ (AgreeOn P) ss ss')
    (htest : ∀ s s', AgreeOn P s s' → test s = test s') :
    countWhere test ss = countWhere test ss' := by
  induction h with
  | nil => rfl
  | cons first _ ih => rw [countWhere, countWhere, htest _ _ first, ih]

variable [MonadExceptOf Error m] {r : Reasoner m}

theorem lookUp_congr {k : Slot} (h : s.get? k = s'.get? k) :
    lookUp (m := m) s k = lookUp s' k := by
  unfold lookUp
  rw [h]

theorem agreeOn_part {e part : Expr} (h : AgreeOn (Mentions · e) s s') (hpart : part ∈ e.parts) :
    AgreeOn (Mentions · part) s s' := h.mono fun _ => .within hpart

/-- A tree is evaluated alike in scenarios that agree on what it mentions.  The induction follows
the evaluator, and the scenario of the first run with it; only a `count` changes it. -/
theorem evaluate_congr [LawfulMonad m] (r : Reasoner m) :
    ∀ (e : Expr) (s s' : Scenario), AgreeOn (Mentions · e) s s' →
      evaluate r e s = evaluate r e s' := by
  refine fun e s => (evaluate.mutual_induct
    (fun e s => ∀ s', AgreeOn (Mentions · e) s s' → evaluate r e s = evaluate r e s')
    (fun es s => ∀ s', (∀ e ∈ es, AgreeOn (Mentions · e) s s') → allTrue r es s = allTrue r es s')
    (fun es s => ∀ s', (∀ e ∈ es, AgreeOn (Mentions · e) s s') →
      evaluateAll r es s = evaluateAll r es s')
    ?slot ?relation ?property ?method ?construct ?number ?text ?facts ?identical ?distinct ?equal
    ?unequal ?approx ?count ?otherwise ?formula ?binary ?negate ?trueNil ?trueCons ?allNil
    ?allCons).1 e s
  case slot =>
    intro k s s' h
    simp only [evaluate]
    exact lookUp_congr (h k .here)
  case relation =>
    intro name domain target negated s ihdomain ihtarget s' h
    simp only [evaluate]
    rw [ihdomain s' (agreeOn_part h (by simp [parts])), ihtarget s' (agreeOn_part h (by simp [parts]))]
  case property =>
    intro subject key s ih s' h
    simp only [evaluate]
    rw [ih s' (agreeOn_part h (by simp [parts]))]
  case method =>
    intro subject name args s ihsubject ihargs s' h
    simp only [evaluate]
    rw [ihsubject s' (agreeOn_part h (by simp [parts])),
      ihargs s' fun e he => agreeOn_part h (List.mem_cons_of_mem _ he)]
  case construct =>
    intro concept args s ih s' h
    simp only [evaluate]
    rw [ih s' fun e he => agreeOn_part h he]
  case number =>
    intro x s s' _
    simp only [evaluate]
  case text =>
    intro t s s' _
    simp only [evaluate]
  case facts =>
    intro name domain target negated s ihdomain ihtarget s' h
    have hpart : .relation name domain target negated ∈
        parts (.builtin .facts [.relation name domain target negated]) := by simp [parts]
    have hrelation := agreeOn_part h hpart
    simp only [evaluate]
    rw [ihdomain s' (agreeOn_part hrelation (by simp [parts])),
      ihtarget s' (agreeOn_part hrelation (by simp [parts]))]
  case identical | distinct | equal | unequal =>
    intro a b s iha ihb s' h
    simp only [evaluate]
    rw [iha s' (agreeOn_part h (by simp [parts])), ihb s' (agreeOn_part h (by simp [parts]))]
  case approx =>
    intro a b c s iha ihb ihc s' h
    simp only [evaluate]
    rw [iha s' (agreeOn_part h (by simp [parts])), ihb s' (agreeOn_part h (by simp [parts])),
      ihc s' (agreeOn_part h (by simp [parts]))]
  case count =>
    intro counted filters s ihfilters ihcounted s' h
    simp only [evaluate]
    have hmentions : ∀ k, counted.introducedSlots.has k = true →
        Mentions k (.builtin .count (counted :: filters)) := fun k hk =>
      .within List.mem_cons_self (mentions_of_introduced hk)
    refine Scenario.extend_bind_congr h hmentions fun rs rs' hrs => ?_
    refine congrArg (· >>= _) (countWhere_congr hrs fun inner inner' hinner => ?_)
    have hall := ihfilters inner inner' fun e he => agreeOn_part hinner (List.mem_cons_of_mem _ he)
    have hcounted := ihcounted inner inner' (agreeOn_part hinner List.mem_cons_self)
    -- what is counted is looked up or evaluated, and then come the filters
    cases counted with
    | slot k =>
        have hk := lookUp_congr (m := m) (hinner k (.within List.mem_cons_self .here))
        simp only [hk, hall]
    | relation name domain target negated => simp only [hcounted, hall]
    | _ => simp only [hall]
  case otherwise =>
    intro function args s hfacts hidentical hdistinct hequal hunequal happrox hcount s' _
    -- the arguments fit none of the calls above
    have hnull (scenario : Scenario) :
        evaluate r (.builtin function args) scenario = pure .null := by
      rw [evaluate] <;> assumption
    rw [hnull s, hnull s']
  case formula =>
    intro args body source s ih s' h
    simp only [evaluate]
    rw [ih s' fun e he => agreeOn_part h he]
  case binary =>
    intro op left right s ihleft ihright s' h
    simp only [evaluate]
    rw [ihleft s' (agreeOn_part h (by simp [parts])), ihright s' (agreeOn_part h (by simp [parts]))]
  case negate =>
    intro inner s ih s' h
    simp only [evaluate]
    rw [ih s' (agreeOn_part h (by simp [parts]))]
  case trueNil =>
    intro s s' _
    simp only [allTrue]
  case trueCons =>
    intro e rest s ihe ihrest s' h
    simp only [allTrue]
    rw [ihe s' (h e List.mem_cons_self), ihrest s' fun e he => h e (List.mem_cons_of_mem _ he)]
  case allNil =>
    intro s s' _
    simp only [evaluateAll]
  case allCons =>
    intro e rest s ihe ihrest s' h
    simp only [evaluateAll]
    rw [ihe s' (h e List.mem_cons_self), ihrest s' fun e he => h e (List.mem_cons_of_mem _ he)]

/-- A reasoner that knows two cities, one of which is near to everything. -/
def ofCities : Reasoner (Except Error) where
  infer _ _ target _ := return if target == .text "Bergen" then .known 1 else .unknown
  candidates
    | .param "City" none => return [.text "Bergen", .text "Rome"]
    | k => throw (.unbound k)
  property _ _ := return .null
  method _ _ _ := return .null
  construct _ _ := return .null

/-- The cities near the domain, other than the target. -/
def nearCities : Expr :=
  .builtin .count [.relation "near" (.slot .domain) (.slot (.param "City" none)) false,
    .builtin .isNot [.slot (.param "City" none), .slot .target]]

/-- A slot that a `count` ranges over stands in it: where the scenario fills it, there is nothing to
range over. -/
example : evaluate ofCities nearCities
    ((Scenario.ofQuery (.text "Oslo") (.text "Rome")).insert (.param "City" none) (.text "Rome")) =
      .ok (.ofInt 0) := by rfl

end Expr

end Credence
