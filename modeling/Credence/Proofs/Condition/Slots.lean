import Credence.Condition.Scenario
import Credence.Ontology.Rule
import Credence.Proofs.Collection.Table

/-!
# Which slots a condition asks for

`Expr.slots` collects into an accumulator.  This file reads the collection off as a membership
predicate, one equation for each kind of tree: the slots of a tree are those of its parts, and a
`count` hides the ones it ranges over.  Evaluation is followed along these equations.

`Mentions` is the plainer notion, which hides nothing: a slot stands somewhere in the tree.
-/

namespace Credence

namespace Expr

/-! ## The accumulator only adds -/

mutual

theorem has_addSlots : ∀ (e : Expr) (seen : SlotSet) (s : Slot),
    (e.addSlots seen).has s = (seen.has s || e.slots.has s)
  | slot k, seen, s => by simp [slots, addSlots, Bool.or_comm]
  | relation name d t negated, seen, s => by
      have hslots : (relation name d t negated).slots = t.addSlots (d.addSlots ∅) := rfl
      simp [hslots, addSlots, has_addSlots d, has_addSlots t, Bool.or_assoc]
  | property subject key, seen, s => by
      have hslots : (property subject key).slots = subject.addSlots ∅ := rfl
      simp [hslots, addSlots, has_addSlots subject]
  | method subject name args, seen, s => by
      have hslots : (method subject name args).slots = addSlotsList args (subject.addSlots ∅) := rfl
      simp [hslots, addSlots, has_addSlots subject, has_addSlotsList args, Bool.or_assoc]
  | construct concept args, seen, s => by
      have hslots : (construct concept args).slots = addSlotsList args ∅ := rfl
      simp [hslots, addSlots, has_addSlotsList args]
  | number _, seen, s => by simp [slots, addSlots]
  | text _, seen, s => by simp [slots, addSlots]
  | builtin function args, seen, s => by
      cases function with
      | count => simp [slots, addSlots]
      | facts | is | isNot | eq | eqNot | approx =>
          simp [slots, addSlots, has_addSlotsList args]
  | formula args body source, seen, s => by
      have hslots : (formula args body source).slots = addSlotsList args ∅ := rfl
      simp [hslots, addSlots, has_addSlotsList args]
  | binary op left right, seen, s => by
      have hslots : (binary op left right).slots = right.addSlots (left.addSlots ∅) := rfl
      simp [hslots, addSlots, has_addSlots left, has_addSlots right, Bool.or_assoc]
  | negate inner, seen, s => by
      have hslots : (negate inner).slots = inner.addSlots ∅ := rfl
      simp [hslots, addSlots, has_addSlots inner]

theorem has_addSlotsList : ∀ (es : List Expr) (seen : SlotSet) (s : Slot),
    (addSlotsList es seen).has s = (seen.has s || es.any fun e => e.slots.has s)
  | [], seen, s => by simp [addSlotsList]
  | e :: rest, seen, s => by
      simp [addSlotsList, has_addSlots e, has_addSlotsList rest, Bool.or_assoc]

end

/-! ## The slots of each kind of tree -/

@[simp] theorem has_slots_slot (k s : Slot) : (slot k).slots.has s = decide (s = k) := by
  simp [slots, addSlots]

@[simp] theorem has_slots_relation (name : String) (d t : Expr) (negated : Bool) (s : Slot) :
    (relation name d t negated).slots.has s = (d.slots.has s || t.slots.has s) := by
  have hslots : (relation name d t negated).slots = t.addSlots (d.addSlots ∅) := rfl
  simp [hslots, has_addSlots]

@[simp] theorem has_slots_property (subject : Expr) (key : String) (s : Slot) :
    (property subject key).slots.has s = subject.slots.has s := rfl

@[simp] theorem has_slots_method (subject : Expr) (name : String) (args : List Expr) (s : Slot) :
    (method subject name args).slots.has s =
      (subject.slots.has s || args.any fun e => e.slots.has s) := by
  have hslots : (method subject name args).slots = addSlotsList args (subject.addSlots ∅) := rfl
  simp [hslots, has_addSlotsList, has_addSlots]

@[simp] theorem has_slots_construct (concept : String) (args : List Expr) (s : Slot) :
    (construct concept args).slots.has s = args.any fun e => e.slots.has s := by
  have hslots : (construct concept args).slots = addSlotsList args ∅ := rfl
  simp [hslots, has_addSlotsList]

@[simp] theorem has_slots_number (x : Float) (s : Slot) : (number x).slots.has s = false := rfl

@[simp] theorem has_slots_text (t : String) (s : Slot) : (text t).slots.has s = false := rfl

@[simp] theorem has_slots_formula (args : List Expr) (body : Formula) (source : String)
    (s : Slot) : (formula args body source).slots.has s = args.any fun e => e.slots.has s := by
  have hslots : (formula args body source).slots = addSlotsList args ∅ := rfl
  simp [hslots, has_addSlotsList]

@[simp] theorem has_slots_binary (op : Operator) (left right : Expr) (s : Slot) :
    (binary op left right).slots.has s = (left.slots.has s || right.slots.has s) := by
  have hslots : (binary op left right).slots = right.addSlots (left.addSlots ∅) := rfl
  simp [hslots, has_addSlots]

@[simp] theorem has_slots_negate (inner : Expr) (s : Slot) :
    (negate inner).slots.has s = inner.slots.has s := rfl

/-- A `count` hides what it ranges over. -/
theorem has_slots_count (args : List Expr) (s : Slot) :
    (builtin .count args).slots.has s =
      ((args.any fun e => e.slots.has s) && !(headSlots args).has s) := by
  simp [slots, addSlots, has_addSlotsList]

theorem has_slots_builtin {function : Builtin} (hcount : function ≠ .count) (args : List Expr)
    (s : Slot) : (builtin function args).slots.has s = args.any fun e => e.slots.has s := by
  have hslots : (builtin function args).slots = addSlotsList args ∅ := by
    cases function with
    | count => exact absurd rfl hcount
    | facts | is | isNot | eq | eqNot | approx => rfl
  simp [hslots, has_addSlotsList]

/-! ## What a count ranges over -/

theorem headSlots_cons (counted : Expr) (filters : List Expr) :
    headSlots (counted :: filters) = counted.introducedSlots := by
  cases counted <;> rfl

@[simp] theorem introducedSlots_slot (k s : Slot) :
    (slot k).introducedSlots.has s = (decide (s = k) && k.isFree) := by
  have hhead : (slot k).introducedSlots = if k.isFree then KeySet.ofList [k] else ∅ := rfl
  rw [hhead]
  cases k.isFree <;> simp

@[simp] theorem introducedSlots_relation (name : String) (d t : Expr) (negated : Bool) (s : Slot) :
    (relation name d t negated).introducedSlots.has s =
      ((relation name d t negated).slots.has s && s.isFree) := by
  have hhead : (relation name d t negated).introducedSlots =
      (relation name d t negated).slots.keep Slot.isFree := rfl
  rw [hhead, KeySet.has_keep]

/-- Only parameters are ranged over. -/
theorem isFree_of_introduced {e : Expr} {s : Slot} (h : e.introducedSlots.has s = true) :
    s.isFree = true := by
  cases e with
  | slot k =>
      rw [introducedSlots_slot, Bool.and_eq_true, decide_eq_true_eq] at h
      rw [h.1]
      exact h.2
  | relation name d t negated =>
      rw [introducedSlots_relation, Bool.and_eq_true] at h
      exact h.2
  | _ => exact absurd h Bool.false_ne_true

/-! ## Where slots stand -/

/-- The trees that a tree is made of. -/
def parts : Expr → List Expr
  | relation _ d t _ => [d, t]
  | property subject _ => [subject]
  | method subject _ args => subject :: args
  | construct _ args => args
  | builtin _ args => args
  | formula args _ _ => args
  | binary _ left right => [left, right]
  | negate inner => [inner]
  | slot _ | number _ | text _ => []

theorem sizeOf_lt_of_mem_parts {part whole : Expr} (h : part ∈ whole.parts) :
    sizeOf part < sizeOf whole := by
  have hargs : ∀ args : List Expr, part ∈ args → sizeOf part < sizeOf args := fun _ =>
    List.sizeOf_lt_of_mem
  cases whole with
  | relation _ d t _ | binary _ d t =>
      simp only [parts, List.mem_cons, List.not_mem_nil, or_false] at h
      rcases h with rfl | rfl <;> simp only [relation.sizeOf_spec, binary.sizeOf_spec] <;> omega
  | property _ _ | negate _ =>
      rw [List.mem_singleton.mp h]
      simp only [property.sizeOf_spec, negate.sizeOf_spec]
      omega
  | method _ _ args =>
      rcases List.mem_cons.mp h with rfl | h
      · simp
        omega
      · have := hargs args h
        simp
        omega
  | construct _ args | builtin _ args | formula args _ _ =>
      have := hargs args h
      simp
      omega
  | slot _ | number _ | text _ => cases h

/-- A slot stands somewhere in a tree, whether a `count` hides it or not. -/
inductive Mentions (s : Slot) : Expr → Prop where
  | here : Mentions s (.slot s)
  | within {part whole : Expr} (hpart : part ∈ whole.parts) (h : Mentions s part) : Mentions s whole

theorem mentions_iff {s : Slot} {e : Expr} :
    Mentions s e ↔ e = .slot s ∨ ∃ part ∈ e.parts, Mentions s part := by
  constructor
  · rintro (_ | ⟨hpart, h⟩)
    · exact .inl rfl
    · exact .inr ⟨_, hpart, h⟩
  · rintro (rfl | ⟨part, hpart, h⟩)
    · exact .here
    · exact .within hpart h

@[simp] theorem mentions_slot {s k : Slot} : Mentions s (.slot k) ↔ k = s := by
  rw [mentions_iff, parts, slot.injEq]
  exact or_iff_left fun ⟨_, h, _⟩ => nomatch h

@[simp] theorem mentions_relation {s : Slot} {name : String} {d t : Expr} {negated : Bool} :
    Mentions s (.relation name d t negated) ↔ Mentions s d ∨ Mentions s t := by
  rw [mentions_iff]
  simp [parts]

@[simp] theorem mentions_builtin {s : Slot} {function : Builtin} {args : List Expr} :
    Mentions s (.builtin function args) ↔ ∃ e ∈ args, Mentions s e := by
  rw [mentions_iff]
  simp [parts]

/-- What a tree asks for is the tree itself or is asked for by a part of it. -/
theorem eq_slot_or_of_has_slots {e : Expr} {s : Slot} (h : e.slots.has s = true) :
    e = .slot s ∨ ∃ part ∈ e.parts, part.slots.has s = true := by
  cases e with
  | slot k =>
      rw [has_slots_slot, decide_eq_true_eq] at h
      exact .inl (by rw [h])
  | number _ | text _ => exact nomatch h
  | builtin function args =>
      refine .inr (List.any_eq_true.mp ?_)
      by_cases hcount : function = .count
      · subst hcount
        rw [has_slots_count, Bool.and_eq_true] at h
        exact h.1
      · rwa [has_slots_builtin hcount] at h
  | _ =>
      refine .inr (List.any_eq_true.mp ?_)
      simpa [parts] using h

/-- A tree asks for no slot that does not stand in it. -/
theorem mentions_of_has_slots (e : Expr) {s : Slot} (h : e.slots.has s = true) : Mentions s e := by
  rcases eq_slot_or_of_has_slots h with rfl | ⟨part, hpart, hslot⟩
  · exact .here
  · have := sizeOf_lt_of_mem_parts hpart
    exact .within hpart (mentions_of_has_slots part hslot)
termination_by sizeOf e

/-- A `count` ranges over slots that stand in what it counts. -/
theorem mentions_of_introduced {e : Expr} {s : Slot} (h : e.introducedSlots.has s = true) :
    Mentions s e := by
  cases e with
  | slot k =>
      rw [introducedSlots_slot, Bool.and_eq_true, decide_eq_true_eq] at h
      rw [h.1]
      exact .here
  | relation name d t negated =>
      rw [introducedSlots_relation, Bool.and_eq_true] at h
      exact mentions_of_has_slots _ h.1
  | _ => exact absurd h Bool.false_ne_true

theorem anyMentionsTarget_eq (es : List Expr) : anyMentionsTarget es = es.any mentionsTarget := by
  induction es with
  | nil => rfl
  | cons e rest ih => rw [anyMentionsTarget, List.any_cons, ih]

theorem mentionsTarget_eq (e : Expr) :
    e.mentionsTarget = (e.parts.any mentionsTarget || match e with
      | slot s => s = .target
      | _ => false) := by
  cases e with
  | slot s => rfl
  | _ => simp [mentionsTarget, parts, anyMentionsTarget_eq]

theorem mentions_of_mentionsTarget (e : Expr) (h : e.mentionsTarget = true) :
    Mentions .target e := by
  rw [mentionsTarget_eq, Bool.or_eq_true, List.any_eq_true] at h
  rcases h with ⟨part, hpart, hmentions⟩ | hself
  · have := sizeOf_lt_of_mem_parts hpart
    exact .within hpart (mentions_of_mentionsTarget part hmentions)
  · cases e with
    | slot s =>
        obtain rfl : s = .target := of_decide_eq_true hself
        exact .here
    | _ => nomatch hself
termination_by sizeOf e

/-- The target is looked for everywhere in a tree. -/
theorem mentionsTarget_iff (e : Expr) : e.mentionsTarget = true ↔ Mentions .target e := by
  refine ⟨mentions_of_mentionsTarget e, fun h => ?_⟩
  induction h with
  | here => rfl
  | within hpart _ ih =>
      rw [mentionsTarget_eq, Bool.or_eq_true, List.any_eq_true]
      exact .inl ⟨_, hpart, ih⟩

/-! ## Parameters -/

@[simp] theorem has_freeSlots (e : Expr) (s : Slot) :
    e.freeSlots.has s = (e.slots.has s && s.isFree) := by
  rw [freeSlots, KeySet.has_keep]

end Expr

/-- The parameters of a rule are those of its conditions. -/
theorem Rule.has_freeSlots {rule : Rule} {s : Slot} :
    rule.freeSlots.has s = true ↔ ∃ c ∈ rule.conditions, c.tree.freeSlots.has s = true := by
  rw [Rule.freeSlots, KeySet.has_foldl fun s c => by rw [KeySet.has_union, Bool.or_eq_true]]
  simp only [KeySet.has_empty, Bool.false_eq_true, false_or]

namespace Scenario

theorem contains_ofQuery_domain (d t : Value) : (ofQuery d t).contains .domain = true := by
  simp [ofQuery]

theorem contains_ofQuery_target (d t : Value) : (ofQuery d t).contains .target = true := by
  simp [ofQuery]

end Scenario

end Credence
