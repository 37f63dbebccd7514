/-!
# Tables in key order

A `Table κ β` is a finite map whose entries stand in ascending order of their keys.  The order is
part of the type, so a table has exactly one representation: two tables are equal as soon as they
answer every look-up alike (`Table.ext_get?`), and every listing of a table comes out sorted.

Each operation is described through the look-up `get?`, which is the one view of a table that the
rest of the library reasons with.
-/

namespace Credence

/-- A finite map with its entries in strictly ascending key order. -/
structure Table (κ β : Type) [Ord κ] where
  entries : List (κ × β)
  /-- No key stands twice, and none before a smaller one. -/
  ascending : entries.Pairwise fun a b => compare a.1 b.1 = .lt

namespace Table

variable {κ β γ : Type} [Ord κ]

@[ext] theorem ext_entries {s t : Table κ β} (h : s.entries = t.entries) : s = t := by
  cases s; cases t; cases h; rfl

instance [DecidableEq κ] [DecidableEq β] : DecidableEq (Table κ β) := fun s t =>
  if h : s.entries = t.entries then isTrue (ext_entries h)
  else isFalse fun e => h (e ▸ rfl)

/-! ## Reading -/

def empty : Table κ β := ⟨[], .nil⟩

instance : EmptyCollection (Table κ β) := ⟨empty⟩
instance : Inhabited (Table κ β) := ⟨empty⟩

def keys (t : Table κ β) : List κ := t.entries.map (·.1)

def values (t : Table κ β) : List β := t.entries.map (·.2)

def size (t : Table κ β) : Nat := t.entries.length

def isEmpty (t : Table κ β) : Bool := t.entries.isEmpty

/-- The value beside the first key that compares equal to `k`. -/
def find? (k : κ) : List (κ × β) → Option β
  | [] => none
  | (k', v) :: rest => if compare k k' = .eq then some v else find? k rest

def get? (t : Table κ β) (k : κ) : Option β := find? k t.entries

def contains (t : Table κ β) (k : κ) : Bool := (t.get? k).isSome

/-! ## Writing -/

/-- Puts an entry where its key belongs and drops the entry it replaces. -/
def place (k : κ) (v : β) : List (κ × β) → List (κ × β)
  | [] => [(k, v)]
  | (k', v') :: rest =>
    match compare k k' with
    | .lt => (k, v) :: (k', v') :: rest
    | .eq => (k, v) :: rest
    | .gt => (k', v') :: place k v rest

/-- Drops the entry under a key. -/
def dropKey (k : κ) (entries : List (κ × β)) : List (κ × β) :=
  entries.filter fun e => compare k e.1 != .eq

def erase (t : Table κ β) (k : κ) : Table κ β :=
  ⟨dropKey k t.entries, t.ascending.filter _⟩

def filter (t : Table κ β) (p : κ → β → Bool) : Table κ β :=
  ⟨t.entries.filter fun e => p e.1 e.2, t.ascending.filter _⟩

def mapValues (t : Table κ β) (f : κ → β → γ) : Table κ γ :=
  ⟨t.entries.map fun e => (e.1, f e.1 e.2), List.pairwise_map.2 t.ascending⟩

theorem mem_place {k : κ} {v : β} {e : κ × β} {l : List (κ × β)} (h : e ∈ place k v l) :
    e = (k, v) ∨ e ∈ l := by
  induction l with
  | nil => simpa [place] using h
  | cons hd tl ih =>
    obtain ⟨k', v'⟩ := hd
    simp only [place] at h
    split at h
    · simpa using h
    · rcases List.mem_cons.1 h with h | h
      · exact .inl h
      · exact .inr (List.mem_cons_of_mem _ h)
    · rcases List.mem_cons.1 h with h | h
      · exact .inr (h ▸ List.mem_cons_self)
      · exact (ih h).imp_right (List.mem_cons_of_mem _)

theorem pairwise_place [Std.TransOrd κ] [Std.LawfulEqOrd κ] (k : κ) (v : β) {l : List (κ × β)}
    (h : l.Pairwise fun a b => compare a.1 b.1 = .lt) :
    (place k v l).Pairwise fun a b => compare a.1 b.1 = .lt := by
  induction l with
  | nil => simp [place]
  | cons hd tl ih =>
    obtain ⟨k', v'⟩ := hd
    rw [List.pairwise_cons] at h
    simp only [place]
    split
    · rename_i hlt
      refine List.pairwise_cons.2 ⟨fun e he => ?_, List.pairwise_cons.2 h⟩
      rcases List.mem_cons.1 he with rfl | he
      · exact hlt
      · exact Std.TransCmp.lt_trans hlt (h.1 e he)
    · rename_i heq
      have : k = k' := Std.LawfulEqCmp.eq_of_compare heq
      subst this
      exact List.pairwise_cons.2 ⟨h.1, h.2⟩
    · rename_i hgt
      refine List.pairwise_cons.2 ⟨fun e he => ?_, ih h.2⟩
      rcases mem_place he with rfl | he
      · exact Std.OrientedCmp.lt_of_gt hgt
      · exact h.1 e he

section Placing

variable [Std.TransOrd κ] [Std.LawfulEqOrd κ]

def insert (t : Table κ β) (k : κ) (v : β) : Table κ β :=
  ⟨place k v t.entries, pairwise_place k v t.ascending⟩

/-- Stores `f` of what a key has now. -/
def alter (t : Table κ β) (k : κ) (f : Option β → β) : Table κ β :=
  t.insert k (f (t.get? k))

def modify (t : Table κ β) (k : κ) (f : β → β) : Table κ β :=
  match t.get? k with
  | some v => t.insert k (f v)
  | none => t

/-- The table of a list of entries; a later entry replaces an earlier one with its key. -/
def ofList (entries : List (κ × β)) : Table κ β :=
  entries.foldl (fun t e => t.insert e.1 e.2) empty

/-- The entries of two tables; where both have a value, the second one counts. -/
def override (t u : Table κ β) : Table κ β := u.entries.foldl (fun t e => t.insert e.1 e.2) t

end Placing

/-! ## What the operations do to a look-up -/

@[simp] theorem get?_empty (k : κ) : (empty : Table κ β).get? k = none := rfl

section Lookup

variable [Std.LawfulEqOrd κ]

theorem find?_place [DecidableEq κ] (k q : κ) (v : β) (l : List (κ × β)) :
    find? q (place k v l) = if q = k then some v else find? q l := by
  induction l with
  | nil =>
    simp only [place, find?, Std.LawfulEqCmp.compare_eq_iff_eq]
  | cons hd tl ih =>
    obtain ⟨k', v'⟩ := hd
    simp only [place]
    split
    · simp only [find?, Std.LawfulEqCmp.compare_eq_iff_eq]
    · rename_i heq
      have : k = k' := Std.LawfulEqCmp.eq_of_compare heq
      subst this
      simp only [find?, Std.LawfulEqCmp.compare_eq_iff_eq]
      split <;> rfl
    · rename_i hgt
      have hne : k ≠ k' := by
        rintro rfl
        simp at hgt
      simp only [find?, Std.LawfulEqCmp.compare_eq_iff_eq, ih]
      by_cases h : q = k'
      · subst h
        simp [Ne.symm hne]
      · simp [h]

/-- A stored value is found again, and no other key notices. -/
@[simp] theorem get?_insert [Std.TransOrd κ] [DecidableEq κ] (t : Table κ β) (k q : κ) (v : β) :
    (t.insert k v).get? q = if q = k then some v else t.get? q := by
  simpa [get?, insert] using find?_place k q v t.entries

theorem find?_dropKey [DecidableEq κ] (k q : κ) (l : List (κ × β)) :
    find? q (dropKey k l) = if q = k then none else find? q l := by
  induction l with
  | nil => simp [dropKey, find?]
  | cons hd tl ih =>
    obtain ⟨k', v'⟩ := hd
    simp only [dropKey] at ih ⊢
    by_cases hk : compare k k' = .eq
    · have : k = k' := Std.LawfulEqCmp.eq_of_compare hk
      subst this
      rw [List.filter_cons_of_neg (by simp), ih]
      simp only [find?, Std.LawfulEqCmp.compare_eq_iff_eq]
      split <;> rfl
    · rw [List.filter_cons_of_pos (by simpa using hk)]
      have hne : k ≠ k' := fun h => hk (by subst h; simp)
      simp only [find?, Std.LawfulEqCmp.compare_eq_iff_eq, ih]
      by_cases h : q = k'
      · subst h
        simp [Ne.symm hne]
      · simp [h]

/-- A removed key is gone, and no other key notices. -/
@[simp] theorem get?_erase [DecidableEq κ] (t : Table κ β) (k q : κ) :
    (t.erase k).get? q = if q = k then none else t.get? q := by
  simpa [get?, erase] using find?_dropKey k q t.entries

theorem find?_eq_some_of_mem {l : List (κ × β)}
    (h : l.Pairwise fun a b => compare a.1 b.1 = .lt) {k : κ} {v : β} (hm : (k, v) ∈ l) :
    find? k l = some v := by
  induction l with
  | nil => simp at hm
  | cons hd tl ih =>
    obtain ⟨k', v'⟩ := hd
    rw [List.pairwise_cons] at h
    simp only [find?]
    rcases List.mem_cons.1 hm with e | e
    · cases e; simp
    · have hlt := h.1 (k, v) e
      rw [if_neg, ih h.2 e]
      intro he
      have : k = k' := Std.LawfulEqCmp.eq_of_compare he
      subst this
      simp at hlt

theorem mem_of_find?_eq_some {l : List (κ × β)} {k : κ} {v : β} (h : find? k l = some v) :
    (k, v) ∈ l := by
  induction l with
  | nil => simp [find?] at h
  | cons hd tl ih =>
    obtain ⟨k', v'⟩ := hd
    simp only [find?] at h
    split at h
    · rename_i he
      have : k = k' := Std.LawfulEqCmp.eq_of_compare he
      subst this
      cases h
      exact List.mem_cons_self
    · exact List.mem_cons_of_mem _ (ih h)

/-- The entries of a table are exactly what its look-up finds. -/
theorem mem_entries_iff {t : Table κ β} {k : κ} {v : β} :
    (k, v) ∈ t.entries ↔ t.get? k = some v :=
  ⟨find?_eq_some_of_mem t.ascending, mem_of_find?_eq_some⟩

/-- Two sorted lists of entries with the same members are the same list. -/
theorem eq_of_mem_iff [Std.TransOrd κ] {l m : List (κ × β)}
    (hl : l.Pairwise fun a b => compare a.1 b.1 = .lt)
    (hm : m.Pairwise fun a b => compare a.1 b.1 = .lt) (h : ∀ e, e ∈ l ↔ e ∈ m) : l = m := by
  induction l generalizing m with
  | nil =>
    cases m with
    | nil => rfl
    | cons b m => exact absurd ((h b).2 List.mem_cons_self) (by simp)
  | cons a l ih =>
    cases m with
    | nil => exact absurd ((h a).1 List.mem_cons_self) (by simp)
    | cons b m =>
      rw [List.pairwise_cons] at hl hm
      have hab : a = b := by
        rcases List.mem_cons.1 ((h a).1 List.mem_cons_self) with e | e
        · exact e
        · rcases List.mem_cons.1 ((h b).2 List.mem_cons_self) with e' | e'
          · exact e'.symm
          · have h1 := hm.1 a e
            have h2 := hl.1 b e'
            have := Std.TransCmp.lt_trans h1 h2
            simp at this
      subst hab
      congr 1
      refine ih hl.2 hm.2 fun e => ⟨fun he => ?_, fun he => ?_⟩
      · rcases List.mem_cons.1 ((h e).1 (List.mem_cons_of_mem _ he)) with e' | e'
        · have := hl.1 e he
          subst e'
          simp at this
        · exact e'
      · rcases List.mem_cons.1 ((h e).2 (List.mem_cons_of_mem _ he)) with e' | e'
        · have := hm.1 e he
          subst e'
          simp at this
        · exact e'

/-- Tables that answer every look-up alike are equal. -/
theorem ext_get? [Std.TransOrd κ] {s t : Table κ β} (h : ∀ k, s.get? k = t.get? k) : s = t := by
  refine ext_entries (eq_of_mem_iff s.ascending t.ascending fun e => ?_)
  obtain ⟨k, v⟩ := e
  rw [mem_entries_iff, mem_entries_iff, h]

theorem mem_keys_iff {t : Table κ β} {k : κ} : k ∈ t.keys ↔ t.contains k = true := by
  simp only [keys, List.mem_map, contains, Option.isSome_iff_exists]
  constructor
  · rintro ⟨⟨k', v⟩, h, rfl⟩
    exact ⟨v, mem_entries_iff.1 h⟩
  · rintro ⟨v, h⟩
    exact ⟨(k, v), mem_entries_iff.2 h, rfl⟩

end Lookup

end Table

/-! ## Sets in ascending order -/

/-- A finite set of keys: a table whose entries carry nothing. -/
abbrev KeySet (κ : Type) [Ord κ] := Table κ Unit

namespace KeySet

variable {κ : Type} [Ord κ]

def toList (s : KeySet κ) : List κ := s.keys

def has (s : KeySet κ) (k : κ) : Bool := s.contains k

def remove (s : KeySet κ) (k : κ) : KeySet κ := s.erase k

def keep (s : KeySet κ) (p : κ → Bool) : KeySet κ := s.filter fun k _ => p k

@[simp] theorem has_remove [Std.LawfulEqOrd κ] [DecidableEq κ] (s : KeySet κ) (k q : κ) :
    has (remove s k) q = (!decide (q = k) && has s q) := by
  by_cases h : q = k <;> simp [has, remove, Table.contains, h]

variable [Std.TransOrd κ] [Std.LawfulEqOrd κ]

def add (s : KeySet κ) (k : κ) : KeySet κ := s.insert k ()

def addAll (s : KeySet κ) (ks : List κ) : KeySet κ := ks.foldl add s

def ofList (ks : List κ) : KeySet κ := addAll Table.empty ks

def union (s t : KeySet κ) : KeySet κ := addAll s t.toList

@[simp] theorem has_add [DecidableEq κ] (s : KeySet κ) (k q : κ) :
    has (add s k) q = (decide (q = k) || has s q) := by
  by_cases h : q = k <;> simp [has, add, Table.contains, h]

theorem has_addAll [DecidableEq κ] (s : KeySet κ) (ks : List κ) (q : κ) :
    has (addAll s ks) q = (decide (q ∈ ks) || has s q) := by
  induction ks generalizing s with
  | nil => simp [addAll]
  | cons k ks ih =>
    simp only [addAll, List.foldl_cons] at ih ⊢
    rw [ih, has_add]
    by_cases h1 : q = k <;> by_cases h2 : q ∈ ks <;> simp [h1, h2]

end KeySet

abbrev NameSet := KeySet String

end Credence
