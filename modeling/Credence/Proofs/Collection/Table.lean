import Credence.Collection.Table
import Mathlib.Algebra.GroupWithZero.Nat

/-!
# Look-ups in tables and membership in sets

`Collection/Table.lean` says what insertion and removal do to a look-up.  This file does the same
for the operations that go over a whole table (`filter`, `mapValues`, `ofList`, `override`) and for
those of sets.  Nothing below it opens a list of entries again: two tables are compared by
`Table.ext_get?`.
-/

namespace Credence

namespace Table

variable {κ β γ : Type} [Ord κ]

@[simp] theorem contains_empty (k : κ) : (empty : Table κ β).contains k = false := rfl

@[simp] theorem contains_emptyCollection (k : κ) : (∅ : Table κ β).contains k = false := rfl

@[simp] theorem get?_emptyCollection (k : κ) : (∅ : Table κ β).get? k = none := rfl

theorem contains_iff {t : Table κ β} {k : κ} : t.contains k = true ↔ ∃ v, t.get? k = some v :=
  Option.isSome_iff_exists

@[simp] theorem length_keys (t : Table κ β) : t.keys.length = t.size := by
  simp [keys, size]

@[simp] theorem length_values (t : Table κ β) : t.values.length = t.size := by
  simp [values, size]

@[simp] theorem keys_mapValues (t : Table κ β) (f : κ → β → γ) :
    (t.mapValues f).keys = t.keys := by
  simp [keys, mapValues, List.map_map, Function.comp_def]

@[simp] theorem mapValues_self (t : Table κ β) : (t.mapValues fun _ v => v) = t :=
  ext_entries (List.map_id' t.entries)

/-- A key before all keys of a list is not found in it. -/
theorem find?_eq_none_of_lt {k : κ} {l : List (κ × β)} (h : ∀ e ∈ l, compare k e.1 = .lt) :
    find? k l = none := by
  induction l with
  | nil => rfl
  | cons e l ih =>
      have hfirst := h e List.mem_cons_self
      rw [find?, if_neg (by rw [hfirst]; decide)]
      exact ih fun e' he' => h e' (List.mem_cons_of_mem e he')

/-! ### Sums over the values -/

section Sums

variable [Std.TransOrd κ]

theorem sum_map_place (f : β → Nat) (k : κ) (v : β) {l : List (κ × β)}
    (hl : l.Pairwise fun a b => compare a.1 b.1 = .lt) :
    ((place k v l).map fun e => f e.2).sum + ((find? k l).map f).getD 0 =
      (l.map fun e => f e.2).sum + f v := by
  induction l with
  | nil => simp [place, find?]
  | cons e l ih =>
      obtain ⟨k', v'⟩ := e
      rw [List.pairwise_cons] at hl
      rw [place]
      split
      · rename_i hlt
        have hnone : find? k ((k', v') :: l) = none := find?_eq_none_of_lt fun e he => by
          rcases List.mem_cons.mp he with rfl | he
          · exact hlt
          · exact Std.TransCmp.lt_trans hlt (hl.1 e he)
        rw [hnone]
        simp
        omega
      · rename_i heq
        rw [find?, if_pos heq]
        simp
        omega
      · rename_i hgt
        rw [find?, if_neg (by rw [hgt]; decide)]
        have hrest := ih hl.2
        simp only [List.map_cons, List.sum_cons]
        omega

variable [Std.LawfulEqOrd κ]

/-- A new value counts in place of the one that it replaces. -/
theorem sum_values_insert (f : β → Nat) (t : Table κ β) (k : κ) (v : β) :
    ((t.insert k v).values.map f).sum + ((t.get? k).map f).getD 0 =
      (t.values.map f).sum + f v := by
  have h := sum_map_place f k v t.ascending
  unfold values insert get?
  rw [List.map_map, List.map_map]
  exact h

theorem size_insert (t : Table κ β) (k : κ) (v : β) :
    (t.insert k v).size + (if t.contains k then 1 else 0) = t.size + 1 := by
  have h := sum_values_insert (fun _ => 1) t k v
  rw [List.map_const', List.map_const', List.sum_replicate_nat, List.sum_replicate_nat,
    length_values, length_values, Nat.mul_one, Nat.mul_one] at h
  rw [← h, contains]
  cases t.get? k <;> rfl

end Sums

section Lookup

variable [Std.LawfulEqOrd κ]

theorem get?_eq_some_of_mem {t : Table κ β} {e : κ × β} (he : e ∈ t.entries) :
    t.get? e.1 = some e.2 :=
  mem_entries_iff.mp he

theorem mem_values_iff {t : Table κ β} {v : β} : v ∈ t.values ↔ ∃ k, t.get? k = some v := by
  simp only [values, List.mem_map]
  constructor
  · rintro ⟨e, he, rfl⟩
    exact ⟨e.1, get?_eq_some_of_mem he⟩
  · rintro ⟨k, hk⟩
    exact ⟨(k, v), mem_entries_iff.mpr hk, rfl⟩

theorem keys_nodup (t : Table κ β) : t.keys.Nodup := by
  unfold keys
  rw [List.Nodup, List.pairwise_map]
  refine t.ascending.imp fun {a b} hlt heq => ?_
  rw [heq] at hlt
  simp at hlt

/-- If only the value under one key gives anything, all values give what that one gives. -/
theorem flatMap_values {f : β → List γ} {t : Table κ β} {k : κ}
    (h : ∀ {k' v}, t.get? k' = some v → k' ≠ k → f v = []) :
    t.values.flatMap f = ((t.get? k).map f).getD [] := by
  have hother : ∀ e ∈ t.entries, e.1 ≠ k → f e.2 = [] := fun e he => h (get?_eq_some_of_mem he)
  unfold values
  rw [List.flatMap_map]
  cases hk : t.get? k with
  | none =>
      refine List.flatMap_eq_nil_iff.mpr fun e he => hother e he fun heq => ?_
      rw [← heq, get?_eq_some_of_mem he] at hk
      cases hk
  | some v =>
      obtain ⟨first, last, hsplit⟩ := List.append_of_mem (mem_entries_iff.mpr hk)
      have hnodup := t.keys_nodup
      unfold keys at hnodup
      rw [hsplit] at hnodup hother
      rw [List.map_append, List.map_cons, List.nodup_append] at hnodup
      obtain ⟨-, hlast, hapart⟩ := hnodup
      have hbefore : first.flatMap (fun e => f e.2) = [] :=
        List.flatMap_eq_nil_iff.mpr fun e he => hother e (List.mem_append_left _ he)
          (hapart _ (List.mem_map_of_mem he) _ List.mem_cons_self)
      have hafter : last.flatMap (fun e => f e.2) = [] :=
        List.flatMap_eq_nil_iff.mpr fun e he =>
          hother e (List.mem_append_right _ (List.mem_cons_of_mem _ he)) fun heq =>
            (List.nodup_cons.mp hlast).1 (List.mem_map.mpr ⟨e, he, heq⟩)
      rw [hsplit, List.flatMap_append, List.flatMap_cons, hbefore, hafter]
      simp

theorem find?_map (f : κ → β → γ) (q : κ) (l : List (κ × β)) :
    find? q (l.map fun e => (e.1, f e.1 e.2)) = (find? q l).map (f q) := by
  induction l with
  | nil => rfl
  | cons head tail ih =>
      simp only [List.map_cons, find?]
      by_cases hq : compare q head.1 = .eq
      · rw [if_pos hq, if_pos hq, Std.LawfulEqCmp.eq_of_compare hq]
        rfl
      · rw [if_neg hq, if_neg hq, ih]

/-- Changing the values changes what is found, and nothing else. -/
@[simp] theorem get?_mapValues (t : Table κ β) (f : κ → β → γ) (q : κ) :
    (t.mapValues f).get? q = (t.get? q).map (f q) :=
  find?_map f q t.entries

@[simp] theorem contains_mapValues (t : Table κ β) (f : κ → β → γ) (q : κ) :
    (t.mapValues f).contains q = t.contains q := by
  simp [contains]

/-- What is kept is found, if it was there before. -/
@[simp] theorem get?_filter (t : Table κ β) (p : κ → β → Bool) (q : κ) :
    (t.filter p).get? q = (t.get? q).filter (p q) := by
  cases hq : (t.get? q).filter (p q) with
  | some v =>
      obtain ⟨hget, hp⟩ := Option.filter_eq_some_iff.mp hq
      refine mem_entries_iff.mp (List.mem_filter.mpr ⟨mem_entries_iff.mpr hget, hp⟩)
  | none =>
      cases hf : (t.filter p).get? q with
      | none => rfl
      | some v =>
          obtain ⟨hmem, hp⟩ := List.mem_filter.mp (mem_entries_iff.mpr hf)
          simp [mem_entries_iff.mp hmem, hp] at hq

@[simp] theorem contains_erase [DecidableEq κ] (t : Table κ β) (k q : κ) :
    (t.erase k).contains q = (!decide (q = k) && t.contains q) := by
  by_cases h : q = k <;> simp [contains, h]

/-- The entry of a key is the one that is found under it. -/
theorem find?_entries [DecidableEq κ] (t : Table κ β) (q : κ) :
    t.entries.find? (fun e => e.1 = q) = (t.get? q).map fun v => (q, v) := by
  cases hq : t.entries.find? fun e => e.1 = q with
  | some e =>
      have hkey : e.1 = q := by simpa using List.find?_some hq
      rw [← hkey, get?_eq_some_of_mem (List.mem_of_find?_eq_some hq), Option.map_some]
  | none =>
      cases hv : t.get? q with
      | none => rfl
      | some v =>
          have hmem := List.find?_eq_none.mp hq _ (mem_entries_iff.mpr hv)
          simp at hmem

section Placing

variable [Std.TransOrd κ] [DecidableEq κ]

@[simp] theorem contains_insert (t : Table κ β) (k q : κ) (v : β) :
    (t.insert k v).contains q = (decide (q = k) || t.contains q) := by
  by_cases h : q = k <;> simp [contains, h]

/-- A changed value is found in place of the old one. -/
@[simp] theorem get?_modify (t : Table κ β) (k q : κ) (f : β → β) :
    (t.modify k f).get? q = if q = k then (t.get? q).map f else t.get? q := by
  unfold modify
  cases hk : t.get? k with
  | none =>
      by_cases h : q = k
      · rw [if_pos h, h, hk]; rfl
      · rw [if_neg h]
  | some v =>
      by_cases h : q = k
      · rw [h, hk]; simp
      · simp [h]

@[simp] theorem contains_modify (t : Table κ β) (k q : κ) (f : β → β) :
    (t.modify k f).contains q = t.contains q := by
  by_cases h : q = k <;> simp [contains, h]

@[simp] theorem get?_alter (t : Table κ β) (k q : κ) (f : Option β → β) :
    (t.alter k f).get? q = if q = k then some (f (t.get? q)) else t.get? q := by
  rw [alter, get?_insert]
  by_cases h : q = k
  · rw [if_pos h, if_pos h, h]
  · rw [if_neg h, if_neg h]

/-! ### Tables of lists -/

theorem get?_foldl_insert (entries : List (κ × β)) (t : Table κ β) (q : κ) :
    (entries.foldl (fun t e => t.insert e.1 e.2) t).get? q =
      ((entries.reverse.find? fun e => e.1 = q).map (·.2)).or (t.get? q) := by
  induction entries generalizing t with
  | nil => simp
  | cons e rest ih =>
      rw [List.foldl_cons, ih, get?_insert, List.reverse_cons, List.find?_append]
      cases hrest : rest.reverse.find? fun e => e.1 = q with
      | some found => simp
      | none =>
          by_cases h : q = e.1
          · simp [h]
          · simp [h, Ne.symm h]

theorem get?_override (t u : Table κ β) (q : κ) :
    (t.override u).get? q = (u.get? q).or (t.get? q) := by
  rw [override, get?_foldl_insert]
  congr 1
  cases hq : u.entries.reverse.find? fun e => e.1 = q with
  | some e =>
      have hmem := List.mem_of_find?_eq_some hq
      have hkey := List.find?_some hq
      rw [List.mem_reverse] at hmem
      rw [← of_decide_eq_true hkey, get?_eq_some_of_mem hmem]
      rfl
  | none =>
      cases hu : u.get? q with
      | none => rfl
      | some v =>
          have hmem := List.mem_reverse.mpr (mem_entries_iff.mpr hu)
          have := List.find?_eq_none.mp hq _ hmem
          simp at this

/-- Items with different keys change what stands under their keys, each once. -/
theorem get?_foldl_alter {α : Type} {key : α → κ} {f : α → Option β → β} {items : List α}
    (hkeys : (items.map key).Nodup) (t : Table κ β) (q : κ) :
    (items.foldl (fun t a => t.alter (key a) (f a)) t).get? q =
      match items.find? fun a => key a = q with
      | some a => some (f a (t.get? q))
      | none => t.get? q := by
  induction items generalizing t with
  | nil => rfl
  | cons a rest ih =>
      rw [List.map_cons, List.nodup_cons] at hkeys
      rw [List.foldl_cons, ih hkeys.2, get?_alter]
      by_cases h : key a = q
      · -- none of the later items has the key
        have hrest : rest.find? (fun b => key b = q) = none := by
          refine List.find?_eq_none.mpr fun b hb hkey => hkeys.1 ?_
          rw [h, ← of_decide_eq_true hkey]
          exact List.mem_map_of_mem hb
        simp [h, hrest]
      · simp [h, Ne.symm h]

/-- A table of what some keys have. -/
theorem get?_ofList_filterMap (keys : List κ) (f : κ → Option β) (q : κ) :
    (ofList (keys.filterMap fun k => (f k).map fun v => (k, v))).get? q =
      if q ∈ keys then f q else none := by
  rw [ofList, get?_foldl_insert, get?_empty, Option.or_none]
  cases hfind : (keys.filterMap fun k => (f k).map fun v => (k, v)).reverse.find?
      fun e => e.1 = q with
  | some e =>
      have hkey : e.1 = q := by simpa using List.find?_some hfind
      obtain ⟨k, hk, hentry⟩ :=
        List.mem_filterMap.mp (List.mem_reverse.mp (List.mem_of_find?_eq_some hfind))
      obtain ⟨v, hv, rfl⟩ := Option.map_eq_some_iff.mp hentry
      rw [← hkey, if_pos hk, hv, Option.map_some]
  | none =>
      by_cases hq : q ∈ keys
      · rw [if_pos hq]
        cases hv : f q with
        | none => rfl
        | some v =>
            have hmem := List.find?_eq_none.mp hfind (q, v) (List.mem_reverse.mpr
              (List.mem_filterMap.mpr ⟨q, hq, by rw [hv]; rfl⟩))
            simp at hmem
      · rw [if_neg hq]
        rfl

/-- A table is the table of its entries. -/
@[simp] theorem ofList_entries (t : Table κ β) : ofList t.entries = t := by
  refine ext_get? fun q => ?_
  have h := get?_override (∅ : Table κ β) t q
  rw [get?_emptyCollection, Option.or_none] at h
  exact h

end Placing

end Lookup

end Table

/-! ## Sets -/

namespace KeySet

variable {κ : Type} [Ord κ]

@[simp] theorem has_empty (k : κ) : has (∅ : KeySet κ) k = false := rfl

@[simp] theorem has_tableEmpty (k : κ) : has (Table.empty : KeySet κ) k = false := rfl

/-- Items that each bring keys into a set have brought in a key if one of them does. -/
theorem has_foldl {α : Type} {step : KeySet κ → α → KeySet κ} {brings : α → Prop} {q : κ}
    (hstep : ∀ s a, (step s a).has q = true ↔ s.has q = true ∨ brings a) (items : List α)
    (s : KeySet κ) :
    (items.foldl step s).has q = true ↔ s.has q = true ∨ ∃ a ∈ items, brings a := by
  induction items generalizing s with
  | nil => simp
  | cons a rest ih =>
      rw [List.foldl_cons, ih, hstep, or_assoc]
      simp only [List.mem_cons, exists_eq_or_imp]

variable [Std.LawfulEqOrd κ]

theorem mem_toList_iff {s : KeySet κ} {k : κ} : k ∈ s.toList ↔ s.has k = true :=
  Table.mem_keys_iff

@[simp] theorem has_keep (s : KeySet κ) (p : κ → Bool) (k : κ) :
    has (s.keep p) k = (s.has k && p k) := by
  unfold has keep Table.contains
  rw [Table.get?_filter]
  cases s.get? k with
  | none => rfl
  | some u => cases p k <;> simp

variable [Std.TransOrd κ]

/-- Sets with the same members are the same set. -/
theorem ext_has {s t : KeySet κ} (h : ∀ k, s.has k = t.has k) : s = t := by
  refine Table.ext_get? fun k => ?_
  have hk := h k
  unfold has Table.contains at hk
  cases hs : s.get? k <;> cases ht : t.get? k <;> simp_all

variable [DecidableEq κ]

@[simp] theorem has_ofList (ks : List κ) (k : κ) : has (ofList ks) k = decide (k ∈ ks) := by
  rw [ofList, has_addAll, has_tableEmpty, Bool.or_false]

@[simp] theorem has_union (s t : KeySet κ) (k : κ) : has (s.union t) k = (s.has k || t.has k) := by
  rw [union, has_addAll, Bool.eq_iff_iff]
  simp [mem_toList_iff, or_comm]

@[simp] theorem ofList_toList (s : KeySet κ) : ofList s.toList = s := by
  refine ext_has fun k => ?_
  rw [has_ofList, Bool.eq_iff_iff, decide_eq_true_eq, mem_toList_iff]

theorem add_of_has {s : KeySet κ} {k : κ} (h : s.has k = true) : s.add k = s := by
  refine ext_has fun q => ?_
  by_cases hq : q = k
  · simp [hq, h]
  · simp [hq]

theorem remove_of_not_has {s : KeySet κ} {k : κ} (h : s.has k = false) : s.remove k = s := by
  refine ext_has fun q => ?_
  by_cases hq : q = k
  · simp [hq, h]
  · simp [hq]

theorem remove_add {s : KeySet κ} {k : κ} (h : s.has k = false) : (s.add k).remove k = s := by
  refine ext_has fun q => ?_
  by_cases hq : q = k
  · simp [hq, h]
  · simp [hq]

end KeySet

end Credence
