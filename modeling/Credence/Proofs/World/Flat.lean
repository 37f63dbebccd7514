import Credence.Proofs.World.Registry

/-!
# A registry is a flat table

A registry keeps its instances on two levels, but whoever uses it need not know.  This file runs the
same changes on a registry and on one table of instances by their keys, and shows that the two agree
on everything that can be asked (`Registry.agrees_with_flat`).

The questions look at different levels: which concepts there are, and whether there is anything at
all, is read off the outer level, and how many instances there are off the inner one.  They fit
together because no shelf is ever empty.  Two changes could spoil this: the removal of the last
instance of a concept, and storing, which puts up a shelf before it is known whether the instance is
taken.  An instance is only refused because of one that has its key, and then there was a shelf
already (`Registry.insertInPlace_eq`).
-/

namespace Credence.Registry

variable {r : Registry} {m : Table InstanceKey Instance} {key : InstanceKey}

/-! ## Changes of both -/

/-- A change of a registry. -/
inductive Change where
  | insert (i : Instance)
  | replace (i : Instance)
  | remove (key : InstanceKey)
  | removeConcept (concept : String)

/-- A registry after a change; a refused instance changes nothing. -/
def Change.next (r : Registry) : Change → Registry
  | insert i =>
    match r.insert i with
    | .ok r => r
    | .error _ => r
  | replace i => r.replace i
  | remove key => r.erase key
  | removeConcept concept => r.eraseConcept concept

/-- The same change of a table of instances by their keys. -/
def Change.nextFlat (m : Table InstanceKey Instance) : Change → Table InstanceKey Instance
  | insert i => if m.contains i.key then m else m.insert i.key i
  | replace i => m.insert i.key i
  | remove key => m.erase key
  | removeConcept concept => m.filter fun key _ => key.concept ≠ concept

/-- A registry after changes, the first one first. -/
def after (changes : List Change) : Registry := changes.foldl Change.next {}

def flatAfter (changes : List Change) : Table InstanceKey Instance :=
  changes.foldl Change.nextFlat ∅

/-! ## Storing on two levels -/

/-- Stores an instance in the order in which the two levels are touched: a shelf is put up if there
is none, also for an instance that is then refused. -/
def insertInPlace (r : Registry) (i : Instance) : Except Error Unit × Registry :=
  let shelf := r.shelf i.key.concept
  let shelved : Registry := ⟨r.byConcept.insert i.key.concept shelf⟩
  if shelf.contains i.key.name then (.error (.violation (.instanceExists i.key)), shelved)
  else (.ok (), ⟨shelved.byConcept.insert i.key.concept (shelf.insert i.key.name i)⟩)

theorem contains_eq_shelf (r : Registry) (key : InstanceKey) :
    r.contains key = (r.shelf key.concept).contains key.name :=
  congrArg Option.isSome (get?_eq_shelf r key)

/-- The shelf of an instance that is refused has been there before. -/
theorem shelved_of_contains (h : r.contains key = true) :
    r.byConcept.insert key.concept (r.shelf key.concept) = r.byConcept := by
  obtain ⟨i, hi⟩ := Option.isSome_iff_exists.mp h
  obtain ⟨shelf, hshelf, -⟩ := Option.bind_eq_some_iff.mp hi
  have hown : r.shelf key.concept = shelf := by rw [Registry.shelf, hshelf, Option.getD_some]
  refine Table.ext_get? fun concept => ?_
  rw [Table.get?_insert, hown]
  split
  · rename_i hconcept
    rw [hconcept, hshelf]
  · rfl

theorem insertInPlace_eq (r : Registry) (i : Instance) :
    r.insertInPlace i =
      match r.insert i with
      | .ok r => (.ok (), r)
      | .error e => (.error e, r) := by
  unfold insertInPlace insert
  dsimp only
  rw [← contains_eq_shelf]
  by_cases h : r.contains i.key = true
  · rw [if_pos h, if_pos h, shelved_of_contains h]
  · rw [if_neg h, if_neg h]
    refine congrArg (Prod.mk _) (congrArg Registry.mk (Table.ext_get? fun concept => ?_))
    rw [Table.get?_insert, Table.get?_insert, Table.get?_insert]
    split <;> rfl

/-! ## The two agree -/

/-- A registry holds what a table holds.  Every instance stands under its own key, and no shelf is
empty. -/
structure Represents (r : Registry) (m : Table InstanceKey Instance) : Prop where
  get?_eq (key : InstanceKey) : r.get? key = m.get? key
  filed {key : InstanceKey} {i : Instance} (hi : r.get? key = some i) : i.key = key
  tidy {concept : String} {shelf : Table String Instance}
    (hshelf : r.byConcept.get? concept = some shelf) : shelf ≠ ∅

theorem represents_empty : Represents {} ∅ where
  get?_eq _ := rfl
  filed hi := nomatch hi
  tidy hshelf := nomatch hshelf

theorem Represents.contains_eq (h : Represents r m) (key : InstanceKey) :
    r.contains key = m.contains key :=
  congrArg Option.isSome (h.get?_eq key)

theorem Represents.replace (h : Represents r m) (i : Instance) :
    Represents (r.replace i) (m.insert i.key i) where
  get?_eq key := by rw [get?_replace, Table.get?_insert, h.get?_eq]
  filed {key j} hj := by
    rw [get?_replace] at hj
    split at hj
    · rename_i hkey
      rw [hkey, Option.some.inj hj]
    · exact h.filed hj
  tidy {concept shelf} hshelf := by
    change (r.byConcept.insert _ _).get? concept = some shelf at hshelf
    rw [Table.get?_insert] at hshelf
    split at hshelf
    · rintro rfl
      have hstored := congrArg (Table.get? · i.key.name) (Option.some.inj hshelf)
      simp at hstored
    · exact h.tidy hshelf

theorem Represents.erase (h : Represents r m) (key : InstanceKey) :
    Represents (r.erase key) (m.erase key) where
  get?_eq key' := by rw [get?_erase, Table.get?_erase, h.get?_eq]
  filed {key' i} hi := by
    rw [get?_erase] at hi
    split at hi
    · cases hi
    · exact h.filed hi
  tidy {concept shelf} hshelf := by
    unfold Registry.erase at hshelf
    cases hold : r.byConcept.get? key.concept with
    | none =>
        rw [hold] at hshelf
        exact h.tidy hshelf
    | some t =>
        rw [hold] at hshelf
        dsimp only at hshelf
        split at hshelf
        · rw [Table.get?_erase] at hshelf
          split at hshelf
          · cases hshelf
          · exact h.tidy hshelf
        · rename_i hrest
          rw [Table.get?_insert] at hshelf
          split at hshelf
          · rintro rfl
            rw [Option.some.inj hshelf] at hrest
            exact hrest rfl
          · exact h.tidy hshelf

theorem Represents.eraseConcept (h : Represents r m) (concept : String) :
    Represents (r.eraseConcept concept) (m.filter fun key _ => key.concept ≠ concept) where
  get?_eq key := by
    rw [get?_eraseConcept, Table.get?_filter, h.get?_eq]
    by_cases hconcept : key.concept = concept
    · cases m.get? key <;> simp [Option.filter, hconcept]
    · cases m.get? key <;> simp [Option.filter, hconcept]
  filed {key i} hi := by
    rw [get?_eraseConcept] at hi
    split at hi
    · nomatch hi
    · exact h.filed hi
  tidy {concept' shelf} hshelf := by
    change (r.byConcept.erase concept).get? concept' = some shelf at hshelf
    rw [Table.get?_erase] at hshelf
    split at hshelf
    · nomatch hshelf
    · exact h.tidy hshelf

theorem next_insert (r : Registry) (i : Instance) :
    Change.next r (.insert i) = if r.contains i.key then r else r.replace i := by
  unfold Change.next Registry.insert
  dsimp only
  by_cases h : r.contains i.key = true
  · rw [if_pos h, if_pos h]
  · rw [if_neg h, if_neg h]

/-- The two agree after a change if they agreed before it. -/
theorem Represents.next (h : Represents r m) (change : Change) :
    Represents (change.next r) (change.nextFlat m) := by
  cases change with
  | insert i =>
      rw [next_insert, h.contains_eq, Change.nextFlat]
      split
      · exact h
      · exact h.replace i
  | replace i => exact h.replace i
  | remove key => exact h.erase key
  | removeConcept concept => exact h.eraseConcept concept

theorem Represents.foldl (h : Represents r m) (changes : List Change) :
    Represents (changes.foldl Change.next r) (changes.foldl Change.nextFlat m) := by
  induction changes generalizing r m with
  | nil => exact h
  | cons change changes ih => exact ih (h.next change)

theorem represents_after (changes : List Change) :
    Represents (after changes) (flatAfter changes) :=
  represents_empty.foldl changes

/-! ## What can be asked -/

theorem Represents.key_of_mem (h : Represents r m) {e : String × Table String Instance}
    (he : e ∈ r.byConcept.entries) {x : String × Instance} (hx : x ∈ e.2.entries) :
    x.2.key = ⟨e.1, x.1⟩ :=
  h.filed (Option.bind_eq_some_iff.mpr
    ⟨e.2, Table.get?_eq_some_of_mem he, Table.get?_eq_some_of_mem hx⟩)

/-- Listing shelf by shelf goes through the keys in order. -/
theorem Represents.ascending (h : Represents r m) :
    r.toList.Pairwise fun i j => compare i.key j.key = .lt := by
  unfold toList Table.values
  rw [List.flatMap_map, List.pairwise_flatMap]
  constructor
  · intro e he
    rw [List.pairwise_map]
    refine e.2.ascending.imp_of_mem fun {x y} hx hy hlt => ?_
    rw [h.key_of_mem he hx, h.key_of_mem he hy]
    show ((compare e.1 e.1).then (compare x.1 y.1)) = .lt
    have hsame : compare e.1 e.1 = .eq := Std.ReflCmp.compare_self
    rw [hsame, hlt]
    rfl
  · refine r.byConcept.ascending.imp_of_mem fun {d e} hd he hlt => ?_
    intro i hi j hj
    obtain ⟨x, hx, rfl⟩ := List.mem_map.mp hi
    obtain ⟨y, hy, rfl⟩ := List.mem_map.mp hj
    rw [h.key_of_mem hd hx, h.key_of_mem he hy]
    show ((compare d.1 e.1).then (compare x.1 y.1)) = .lt
    rw [hlt]
    rfl

theorem Represents.entries_eq (h : Represents r m) :
    r.toList.map (fun i => (i.key, i)) = m.entries := by
  refine Table.eq_of_mem_iff (List.pairwise_map.mpr h.ascending) m.ascending fun e => ?_
  obtain ⟨key, i⟩ := e
  rw [Table.mem_entries_iff, ← h.get?_eq, List.mem_map]
  constructor
  · rintro ⟨j, hj, heq⟩
    obtain ⟨key', hkey'⟩ := mem_toList_iff.mp hj
    obtain ⟨rfl, rfl⟩ := Prod.mk.inj heq
    rw [h.filed hkey']
    exact hkey'
  · intro hi
    exact ⟨i, mem_toList_iff.mpr ⟨key, hi⟩, by rw [h.filed hi]⟩

theorem Represents.toList_eq (h : Represents r m) : r.toList = m.values := by
  rw [Table.values, ← h.entries_eq, List.map_map]
  exact (List.map_id _).symm

theorem Represents.keys_eq (h : Represents r m) : r.toList.map Instance.key = m.keys := by
  rw [Table.keys, ← h.entries_eq, List.map_map]
  rfl

theorem Represents.size_eq (h : Represents r m) : r.size = m.size := by
  rw [size, h.toList_eq, Table.length_values]

/-- The shelf of a concept has the instances of the concept. -/
theorem Represents.ofConcept_eq (h : Represents r m) (concept : String) :
    r.ofConcept concept = m.values.filter fun i => i.key.concept = concept := by
  have hconcept {c : String} {shelf : Table String Instance} (hc : r.byConcept.get? c = some shelf) :
      ∀ i ∈ shelf.values, i.key.concept = c := by
    intro i hi
    obtain ⟨x, hx, rfl⟩ := List.mem_map.mp hi
    rw [h.key_of_mem (Table.mem_entries_iff.mpr hc) hx]
  rw [← h.toList_eq, toList, List.filter_flatMap, Table.flatMap_values (k := concept)]
  · rw [ofConcept, Registry.shelf]
    cases hshelf : r.byConcept.get? concept with
    | none => rfl
    | some shelf =>
        refine (List.filter_eq_self.mpr fun i hi => ?_).symm
        exact decide_eq_true (hconcept hshelf i hi)
  · intro c shelf hc hne
    refine List.filter_eq_nil_iff.mpr fun i hi => ?_
    rw [hconcept hc i hi]
    simpa using hne

/-- A concept has a shelf exactly if it has an instance. -/
theorem Represents.contains_shelf (h : Represents r m) (concept : String) :
    r.byConcept.contains concept = true ↔ ∃ key ∈ m.keys, key.concept = concept := by
  simp only [Table.mem_keys_iff, ← h.contains_eq]
  constructor
  · intro hshelf
    obtain ⟨shelf, hshelf⟩ := Table.contains_iff.mp hshelf
    obtain ⟨x, rest, hentries⟩ := List.exists_cons_of_ne_nil
      fun hnil => h.tidy hshelf (Table.ext_entries (t := ∅) hnil)
    have hx : shelf.get? x.1 = some x.2 :=
      Table.get?_eq_some_of_mem (hentries ▸ List.mem_cons_self)
    refine ⟨⟨concept, x.1⟩, Option.isSome_iff_exists.mpr ⟨x.2, ?_⟩, rfl⟩
    exact Option.bind_eq_some_iff.mpr ⟨shelf, hshelf, hx⟩
  · rintro ⟨key, hkey, rfl⟩
    obtain ⟨i, hi⟩ := Option.isSome_iff_exists.mp hkey
    obtain ⟨shelf, hshelf, -⟩ := Option.bind_eq_some_iff.mp hi
    exact Table.contains_iff.mpr ⟨shelf, hshelf⟩

/-- The concepts are those of the instances, each once and in order. -/
theorem Represents.concepts_eq (h : Represents r m) :
    r.concepts = (KeySet.ofList (m.keys.map InstanceKey.concept)).toList := by
  have hset : (r.byConcept.mapValues fun _ _ => () : NameSet) =
      KeySet.ofList (m.keys.map InstanceKey.concept) := by
    refine KeySet.ext_has fun concept => ?_
    rw [KeySet.has_ofList, KeySet.has, Table.contains_mapValues, Bool.eq_iff_iff,
      decide_eq_true_eq, h.contains_shelf, List.mem_map]
  rw [← hset, KeySet.toList, Table.keys_mapValues, concepts]

theorem Represents.mem_concepts_iff (h : Represents r m) (concept : String) :
    concept ∈ r.concepts ↔ ∃ i ∈ r.toList, i.key.concept = concept := by
  rw [concepts, Table.mem_keys_iff, h.contains_shelf, ← h.keys_eq]
  simp only [List.mem_map, exists_exists_and_eq_and]

/-- There is nothing at all exactly if there is nothing on the shelves. -/
theorem Represents.isEmpty_iff (h : Represents r m) : r.isEmpty = true ↔ r.size = 0 := by
  rw [isEmpty, Table.isEmpty, List.isEmpty_iff, size, List.length_eq_zero_iff]
  constructor
  · intro hnone
    rw [toList, Table.values, hnone]
    rfl
  · intro hnone
    refine List.eq_nil_iff_forall_not_mem.mpr fun e he => ?_
    have hconcept : e.1 ∈ r.concepts := List.mem_map_of_mem he
    obtain ⟨i, hi, -⟩ := (h.mem_concepts_iff e.1).mp hconcept
    rw [hnone] at hi
    exact absurd hi List.not_mem_nil

/-- Whatever changes are made, a registry answers as the table of its instances by their keys: what
is found under a key, all instances, in the order of their concepts and then of their names, those
of one concept, the concepts that have any, and how many there are.  An instance is refused if the
table has its key, and leaves the registry as it is, though its shelf is put up first.  No shelf is
empty, so that the registry is empty exactly if it has no instance. -/
theorem agrees_with_flat (changes : List Change) :
    let r := after changes
    let m := flatAfter changes
    (∀ key, r.get? key = m.get? key ∧ r.contains key = m.contains key) ∧
    (r.toList = m.values ∧ r.toList.map Instance.key = m.keys ∧
      r.toList.Pairwise fun i j => compare i.key j.key = .lt) ∧
    (∀ concept, r.ofConcept concept = m.values.filter fun i => i.key.concept = concept) ∧
    (r.concepts = (KeySet.ofList (m.keys.map InstanceKey.concept)).toList ∧
      ∀ concept, concept ∈ r.concepts ↔ ∃ i ∈ r.toList, i.key.concept = concept) ∧
    r.size = m.size ∧
    (∀ i, if m.contains i.key then
        r.insert i = .error (.violation (.instanceExists i.key)) ∧
          r.insertInPlace i = (.error (.violation (.instanceExists i.key)), r)
      else r.insert i = .ok (r.replace i) ∧ r.insertInPlace i = (.ok (), r.replace i)) ∧
    (∀ shelf ∈ r.byConcept.values, shelf ≠ ∅) ∧
    (r.isEmpty = true ↔ r.size = 0) := by
  intro r m
  have h : Represents r m := represents_after changes
  refine ⟨fun key => ⟨h.get?_eq key, h.contains_eq key⟩, ⟨h.toList_eq, h.keys_eq, h.ascending⟩,
    h.ofConcept_eq, ⟨h.concepts_eq, h.mem_concepts_iff⟩, h.size_eq, ?_, ?_, h.isEmpty_iff⟩
  · intro i
    rw [insertInPlace_eq, Registry.insert, h.contains_eq]
    by_cases hcontains : m.contains i.key = true
    · simp only [if_pos hcontains, and_self]
    · simp only [if_neg hcontains, and_self]
  · intro shelf hshelf
    obtain ⟨concept, hconcept⟩ := Table.mem_values_iff.mp hshelf
    exact h.tidy hconcept

/-- A second England is refused, the only city is removed again, and what is left is one country. -/
theorem agrees_with_flat_travels :
    let england : Instance := ⟨⟨"Country", "England"⟩, ∅⟩
    let paris : Instance := ⟨⟨"City", "Paris"⟩, ∅⟩
    let changes : List Change :=
      [.insert england, .insert england, .replace paris, .remove paris.key]
    (after changes).concepts = ["Country"] ∧ (after changes).size = 1 ∧
      (after changes).isEmpty = false := by
  intro england paris changes
  obtain ⟨-, -, -, ⟨hconcepts, -⟩, hsize, -, -, hempty⟩ := agrees_with_flat changes
  have hone : (flatAfter changes).size = 1 := by decide +kernel
  refine ⟨hconcepts.trans (by decide +kernel), hsize.trans hone, ?_⟩
  rw [Bool.eq_false_iff, ne_eq, hempty, hsize, hone]
  decide

end Credence.Registry
