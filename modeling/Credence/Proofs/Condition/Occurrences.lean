import Credence.Proofs.Condition.Slots

/-!
# Occurrences that no count hides

`Expr.slots` collects the slots of all arguments of a `count` and then takes away those that the
count ranges over.  This file says what is left in terms of occurrences: a tree asks for a slot
exactly if the slot occurs in it outside of every `count` that ranges over the slot.

What a `count` over a relation ranges over is itself a matter of what the relation asks for, so a
`count` within that relation has its say first: a slot that the inner one hides is not ranged over
by the outer one, and an occurrence of it in the filters of the outer one stays visible.  But only
parameters are ever ranged over.  The target of the query is therefore hidden nowhere, and
`mentionsTarget`, which knows nothing of counts, agrees with the collection at any depth.
-/

namespace Credence

namespace Expr

variable {e : Expr} {s : Slot} {around : List Expr}

/-- A slot occurs in a tree.  The trees around the occurrence are listed, the outermost one first. -/
inductive Occurs (s : Slot) : Expr → List Expr → Prop where
  | here : Occurs s (.slot s) []
  | within {part whole : Expr} {around : List Expr} (hpart : part ∈ whole.parts)
      (h : Occurs s part around) : Occurs s whole (whole :: around)

/-- A tree is a `count`, and it ranges over a slot. -/
def Introduces (e : Expr) (s : Slot) : Prop :=
  ∃ counted filters, e = .builtin .count (counted :: filters) ∧
    counted.introducedSlots.has s = true

def IsRelation (e : Expr) : Prop := ∃ name d t negated, e = .relation name d t negated

theorem mentions_iff_occurs : Mentions s e ↔ ∃ around, Occurs s e around := by
  constructor
  · intro h
    induction h with
    | here => exact ⟨[], .here⟩
    | within hpart _ ih =>
        obtain ⟨around, hoccurs⟩ := ih
        exact ⟨_, .within hpart hoccurs⟩
  · rintro ⟨around, h⟩
    induction h with
    | here => exact .here
    | within hpart _ ih => exact .within hpart ih

/-! ## What counts range over -/

theorem introduces_count {args : List Expr} :
    (builtin .count args).Introduces s ↔ (headSlots args).has s = true := by
  cases args with
  | nil =>
      constructor
      · rintro ⟨counted, filters, heq, -⟩
        cases heq
      · intro h
        exact absurd h Bool.false_ne_true
  | cons counted filters =>
      rw [headSlots_cons]
      constructor
      · rintro ⟨_, _, heq, h⟩
        cases heq
        exact h
      · exact fun h => ⟨counted, filters, rfl, h⟩

theorem not_introduces_of_not_isFree (h : s.isFree = false) : ¬ e.Introduces s := by
  rintro ⟨counted, filters, -, hintroduced⟩
  rw [isFree_of_introduced hintroduced] at h
  nomatch h

/-- A `count` ranges over the parameter that it counts, or over the parameters that a counted
relation asks for. -/
theorem has_introducedSlots_iff :
    e.introducedSlots.has s = true ↔
      s.isFree = true ∧ (e = .slot s ∨ e.IsRelation ∧ e.slots.has s = true) := by
  cases e with
  | slot k =>
      rw [introducedSlots_slot, Bool.and_eq_true, decide_eq_true_eq]
      constructor
      · rintro ⟨rfl, hfree⟩
        exact ⟨hfree, .inl rfl⟩
      · rintro ⟨hfree, heq | ⟨⟨_, _, _, _, hrelation⟩, -⟩⟩
        · cases heq
          exact ⟨rfl, hfree⟩
        · cases hrelation
  | relation name d t negated =>
      rw [introducedSlots_relation, Bool.and_eq_true]
      constructor
      · rintro ⟨hslot, hfree⟩
        exact ⟨hfree, .inr ⟨⟨name, d, t, negated, rfl⟩, hslot⟩⟩
      · rintro ⟨hfree, heq | ⟨-, hslot⟩⟩
        · cases heq
        · exact ⟨hslot, hfree⟩
  | _ =>
      constructor
      · intro h
        exact absurd h Bool.false_ne_true
      · rintro ⟨-, heq | ⟨⟨_, _, _, _, hrelation⟩, -⟩⟩
        · cases heq
        · cases hrelation

/-! ## One level of the tree -/

/-- A tree asks for itself, if it is a slot, and for what its parts ask for and it does not range
over. -/
theorem has_slots_iff : e.slots.has s = true ↔
    e = .slot s ∨ ¬ e.Introduces s ∧ ∃ part ∈ e.parts, part.slots.has s = true := by
  constructor
  · intro h
    refine (eq_slot_or_of_has_slots h).imp_right fun hpart => ⟨?_, hpart⟩
    rintro ⟨counted, filters, rfl, hintroduced⟩
    rw [has_slots_count, headSlots_cons, hintroduced] at h
    simp at h
  · rintro (rfl | ⟨hvisible, part, hpart, hslot⟩)
    · rw [has_slots_slot, decide_eq_true_eq]
    · have hany : (e.parts.any fun e => e.slots.has s) = true :=
        List.any_eq_true.mpr ⟨part, hpart, hslot⟩
      cases e with
      | slot _ | number _ | text _ => cases hpart
      | builtin function args =>
          by_cases hcount : function = .count
          · subst hcount
            rw [introduces_count, Bool.not_eq_true] at hvisible
            rw [has_slots_count, hvisible, Bool.not_false, Bool.and_true]
            exact hany
          · rw [has_slots_builtin hcount]
            exact hany
      | _ => simpa [parts] using hany

/-! ## Whole trees -/

theorem exists_occurs_of_has_slots (e : Expr) (h : e.slots.has s = true) :
    ∃ around, Occurs s e around ∧ ∀ tree ∈ around, ¬ tree.Introduces s := by
  rcases has_slots_iff.mp h with rfl | ⟨hvisible, part, hpart, hslot⟩
  · exact ⟨[], .here, fun _ h => nomatch h⟩
  · have := sizeOf_lt_of_mem_parts hpart
    obtain ⟨around, hoccurs, haround⟩ := exists_occurs_of_has_slots part hslot
    refine ⟨e :: around, .within hpart hoccurs, fun tree htree => ?_⟩
    rcases List.mem_cons.mp htree with rfl | htree
    · exact hvisible
    · exact haround tree htree
termination_by sizeOf e

theorem Occurs.has_slots (h : Occurs s e around) (hvisible : ∀ tree ∈ around, ¬ tree.Introduces s) :
    e.slots.has s = true := by
  induction h with
  | here => rw [has_slots_slot, decide_eq_true_eq]
  | within hpart _ ih =>
      refine has_slots_iff.mpr (.inr ⟨hvisible _ List.mem_cons_self, _, hpart, ih ?_⟩)
      exact fun tree htree => hvisible tree (List.mem_cons_of_mem _ htree)

theorem has_slots_iff_occurs : e.slots.has s = true ↔
    ∃ around, Occurs s e around ∧ ∀ tree ∈ around, ¬ tree.Introduces s :=
  ⟨exists_occurs_of_has_slots e, fun ⟨_, hoccurs, hvisible⟩ => hoccurs.has_slots hvisible⟩

/-- What is no parameter is asked for wherever it occurs. -/
theorem has_slots_iff_mentions (h : s.isFree = false) : e.slots.has s = true ↔ Mentions s e := by
  rw [has_slots_iff_occurs, mentions_iff_occurs]
  exact exists_congr fun _ => and_iff_left fun _ _ => not_introduces_of_not_isFree h

theorem mentionsTarget_iff_has_slots : e.mentionsTarget = true ↔ e.slots.has .target = true := by
  rw [mentionsTarget_iff, has_slots_iff_mentions rfl]

end Expr

theorem Slot.isFree_iff {s : Slot} : s.isFree = true ↔ s ≠ .domain ∧ s ≠ .target := by
  cases s <;> simp [isFree]

theorem Rule.mentionsTarget_iff {rule : Rule} :
    rule.mentionsTarget = true ↔ ∃ c ∈ rule.conditions, c.tree.slots.has .target = true := by
  unfold Rule.mentionsTarget
  rw [List.any_eq_true]
  exact exists_congr fun c => and_congr_right fun _ => Expr.mentionsTarget_iff_has_slots

theorem Rule.has_freeSlots_iff {rule : Rule} {s : Slot} :
    rule.freeSlots.has s = true ↔
      (∃ c ∈ rule.conditions, c.tree.slots.has s = true) ∧ s ≠ .domain ∧ s ≠ .target := by
  rw [Rule.has_freeSlots, ← Slot.isFree_iff]
  simp only [Expr.has_freeSlots, Bool.and_eq_true, ← and_assoc, exists_and_right]

/-- The slots of a tree are collected exactly.  A tree asks for a slot if and only if the slot
occurs in it outside of every `count` that ranges over it; a `count` ranges over the parameter that
it counts or over those that a counted relation asks for, and over nothing but parameters.  Hence
the search for the target of the query agrees with the collection.  The parameters of a rule are
what its conditions ask for, apart from the two sides of the query, and the rule looks at the target
of the query if one of its conditions asks for it. -/
theorem Expr.slots_exact :
    (∀ (e : Expr) (s : Slot), e.slots.has s = true ↔
      ∃ around, Occurs s e around ∧ ∀ tree ∈ around, ¬ tree.Introduces s) ∧
    (∀ (e : Expr) (s : Slot), e.introducedSlots.has s = true ↔
      s.isFree = true ∧ (e = .slot s ∨ e.IsRelation ∧ e.slots.has s = true)) ∧
    (∀ e : Expr, e.mentionsTarget = true ↔ e.slots.has .target = true) ∧
    (∀ rule : Rule, rule.mentionsTarget = true ↔
      ∃ c ∈ rule.conditions, c.tree.slots.has .target = true) ∧
    ∀ (rule : Rule) (s : Slot), rule.freeSlots.has s = true ↔
      (∃ c ∈ rule.conditions, c.tree.slots.has s = true) ∧ s ≠ .domain ∧ s ≠ .target := by
  exact ⟨fun e s => has_slots_iff_occurs, fun e s => has_introducedSlots_iff,
    fun e => mentionsTarget_iff_has_slots, fun rule => Rule.mentionsTarget_iff,
    fun rule s => Rule.has_freeSlots_iff⟩

/-- The inner `count` hides the countries, so that the outer one does not range over them. -/
example :
    let country : Expr := .slot (.param "Country" none)
    let near : Expr := .relation "near" (.builtin .count [country]) (.slot .target) false
    (Expr.builtin .count [near, country]).slots.toList = [.target, .param "Country" none] := by
  decide +kernel

end Credence
