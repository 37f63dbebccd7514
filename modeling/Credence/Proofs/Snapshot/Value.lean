import Credence.Proofs.Calendar.DateText
import Credence.Proofs.Json.Decoding
import Credence.Snapshot.Value

/-!
# Saved values

A value takes one level of the document, a list two levels more than the deepest of its items, and
an instance two.  It is read back exactly if its levels fit under the nesting limit.  The bound of
the reader on the recursion never gets in the way, since every list in a list takes two levels and
only one unit of the bound.
-/

namespace Credence

open Json

variable {depth n : Nat}

theorem NameSet.gives (s : NameSet) (depth : Nat) :
    Gives (NameSet.decoder (s.toJson.sketch depth)) (depth < nestingLimit) s := by
  have hlist := gives_asList (b := id) (n := depth) (KeySet.toList s) fun name _ =>
    gives_text name (depth + 1)
  have hset := (hlist.map KeySet.ofList).congr (and_iff_left fun _ _ => trivial)
  rw [List.map_id, KeySet.ofList_toList] at hset
  exact hset

theorem InstanceKey.gives (k : InstanceKey) (depth : Nat) :
    Gives (InstanceKey.decoder (k.toJson.sketch depth)) (depth < nestingLimit) k := by
  apply Gives.congr
  · apply gives_asRecord
    · apply gives_field rfl (by decide) (gives_text _ _)
      apply gives_field rfl (by decide) (gives_text _ _)
      exact gives_noFields
    · decide
  · simp

/-! ## Tagged values -/

namespace Json.Tagging

variable {κ α : Type} {name : String} {k : κ}

theorem next_tag (t : Tagging κ α) (closed : Bool) (d : Draft)
    (rest : List (Option String × Draft)) :
    t.next closed ((some t.tag, d) :: rest) = .ok (some (t.tag, d, rest)) :=
  if_pos (.inl rfl)

theorem next_content (t : Tagging κ α) (closed : Bool) (d : Draft)
    (rest : List (Option String × Draft)) :
    t.next closed ((some t.content, d) :: rest) = .ok (some (t.content, d, rest)) :=
  if_pos (.inr rfl)

/-- The tag that stands first tells the kind of what follows. -/
theorem ofFields_tag (t : Tagging κ α) (hname : t.ofName? name = some k) (closed : Bool)
    (rest : List (Option String × Draft)) :
    t.ofFields .ahead closed ((some t.tag, .text (some name)) :: rest) =
      t.afterTag .ahead closed rest k := by
  have hkind : t.kindInField .ahead (.text (some name)) = .ok k :=
    (gives_meant hname 0).value trivial
  unfold ofFields
  rw [next_tag, ok_bind]
  dsimp only
  rw [if_pos rfl, hkind, ok_bind]

/-- A tag in front of a content is read as the content of its kind. -/
theorem ofFields_eq (t : Tagging κ α) (hne : t.content ≠ t.tag)
    (hname : t.ofName? name = some k) (d : Draft) :
    t.ofFields .ahead true [(some t.tag, .text (some name)), (some t.content, d)] =
      t.value .ahead k d := by
  rw [ofFields_tag t hname]
  unfold afterTag
  rw [next_content, ok_bind]
  dsimp only
  rw [if_neg hne]
  cases t.value .ahead k d with
  | error e => rfl
  | ok a => rfl

/-- A tag that stands alone is read as the value of a kind without content. -/
theorem ofFields_bare (t : Tagging κ α) (hname : t.ofName? name = some k) {a : α}
    (ha : t.bare k = some a) :
    t.ofFields .ahead true [(some t.tag, .text (some name))] = .ok a := by
  rw [ofFields_tag t hname]
  unfold afterTag
  have hend : t.next true [] = .ok none := rfl
  rw [hend, ok_bind]
  dsimp only
  rw [ha]
  rfl

end Json.Tagging

namespace Value

mutual

/-- The levels of lists and objects that a saved value takes. -/
def levels : Value → Nat
  | list items => itemLevels items + 2
  | inst _ => 2
  | null | bool _ | number _ | text _ | date _ | concept _ => 1

/-- The levels that the deepest of some values takes. -/
def itemLevels : List Value → Nat
  | [] => 0
  | v :: rest => max (levels v) (itemLevels rest)

end

theorem itemLevels_le_iff {items : List Value} {k : Nat} :
    itemLevels items ≤ k ↔ ∀ v ∈ items, v.levels ≤ k := by
  induction items with
  | nil => simp [itemLevels]
  | cons v rest ih => rw [itemLevels, Nat.max_le, ih, List.forall_mem_cons]

theorem listToJson_eq_map (items : List Value) : listToJson items = items.map toJson := by
  induction items with
  | nil => rfl
  | cons v rest ih => rw [listToJson, ih, List.map_cons]

@[simp] theorem allNumbers_tagged {P : Float → Prop} {k : Kind} {inside : Json} :
    (tagged k inside).AllNumbers P ↔ inside.AllNumbers P := by
  simp [tagged]

theorem gives_tagged (item : Place → Decoder Value) (k : Kind) (inside : Json) {p : Prop}
    {v : Value} (h : Gives (content item .ahead k (inside.sketch (depth + 1))) p v) :
    Gives ((tagging item).decoder .ahead ((tagged k inside).sketch depth))
      (depth < nestingLimit ∧ p) v := by
  have hne : (tagging item).content ≠ (tagging item).tag := by
    show "value" ≠ "type"
    decide
  have hkind : (tagging item).ofName? k.name = some k := Kind.ofName?_name k
  have hfields := Tagging.ofFields_eq (tagging item) hne hkind (inside.sketch (depth + 1))
  refine Gives.within ?_
  exact hfields ▸ h

/-- A value that holds no other value takes one level. -/
theorem gives_leaf (item : Place → Decoder Value) (k : Kind) (inside : Json) {v : Value}
    (hlevels : v.levels = 1)
    (h : Gives (content item .ahead k (inside.sketch (depth + 1))) True v) :
    Gives ((tagging item).decoder .ahead ((tagged k inside).sketch depth))
      (depth + v.levels ≤ nestingLimit) v := by
  refine (gives_tagged item k inside h).congr ?_
  rw [hlevels, and_true]
  exact Iff.rfl

theorem levels_pos (v : Value) : 0 < v.levels := by
  cases v <;> simp [levels]

mutual

/-- A value is read back exactly if its levels fit under the nesting limit. -/
theorem gives : ∀ (v : Value) (_ : v.toJson.Legible) (n depth : Nat)
    (_ : nestingLimit ≤ depth + n),
    Gives (decoderAt n .ahead (v.toJson.sketch depth)) (depth + v.levels ≤ nestingLimit) v
  | v, _, 0, depth, hn => by
      -- the bound is used up only where nothing fits any more
      have hlevels := v.levels_pos
      exact { value := fun h => by omega, fault := fun _ => rfl }
  | null, _, n + 1, depth, _ => by
      have hkind : (tagging (decoderAt n)).ofName? Kind.null.name = some .null :=
        Kind.ofName?_name .null
      have hfields := Tagging.ofFields_bare (tagging (decoderAt n)) hkind rfl
      exact (Gives.within (.of_eq hfields)).congr (and_iff_left trivial)
  | bool b, _, n + 1, depth, _ =>
      gives_leaf (decoderAt n) .bool (.bool b) rfl ((gives_bool b (depth + 1)).map Value.bool)
  | number x, hx, n + 1, depth, _ => by
      simp only [toJson, allNumbers_tagged, allNumbers_number] at hx
      exact gives_leaf (decoderAt n) .number (.number x) rfl
        ((gives_number hx (depth + 1)).map Value.number)
  | text s, _, n + 1, depth, _ =>
      gives_leaf (decoderAt n) .text (.text s) rfl ((gives_text s (depth + 1)).map Value.text)
  | date d, _, n + 1, depth, _ =>
      gives_leaf (decoderAt n) .date (.text d.toText) rfl
        ((gives_meant d.readSaved_toText (depth + 1)).map Value.date)
  | concept name, _, n + 1, depth, _ =>
      gives_leaf (decoderAt n) .concept (.text name) rfl
        ((gives_text name (depth + 1)).map Value.concept)
  | inst key, _, n + 1, depth, _ => by
      have hkey := (InstanceKey.gives key (depth + 1)).map Value.inst
      refine (gives_tagged (decoderAt n) .inst key.toJson hkey).congr ?_
      rw [levels]
      omega
  | list items, hlegible, n + 1, depth, hn => by
      simp only [toJson, allNumbers_tagged, allNumbers_list] at hlegible
      have hitems := gives_asList items (gives_items items hlegible n (depth + 2) (by omega))
      rw [← listToJson_eq_map, List.map_id'] at hitems
      refine (gives_tagged (decoderAt n) .list (.list (listToJson items))
        (hitems.map Value.list)).congr ?_
      -- the object takes a level and the list in it another, also when the list is empty
      rw [levels]
      constructor
      · rintro ⟨-, hdepth, hfit⟩
        have hmost : itemLevels items ≤ nestingLimit - (depth + 2) :=
          itemLevels_le_iff.mpr fun v hv => by have := hfit v hv; omega
        omega
      · intro hfit
        have hmost : itemLevels items ≤ nestingLimit - (depth + 2) := by omega
        refine ⟨by omega, by omega, fun v hv => ?_⟩
        have hv := itemLevels_le_iff.mp hmost v hv
        omega

theorem gives_items : ∀ (items : List Value) (_ : ∀ j ∈ listToJson items, j.Legible)
    (n depth : Nat) (_ : nestingLimit ≤ depth + n), ∀ v ∈ items,
    Gives (decoderAt n .ahead (v.toJson.sketch depth)) (depth + v.levels ≤ nestingLimit) v
  | v :: rest, hlegible, n, depth, hn, w, hw => by
      obtain ⟨hv, hrest⟩ := List.forall_mem_cons.mp hlegible
      rcases List.mem_cons.mp hw with heq | hw
      · rw [heq]
        exact gives v hv n depth hn
      · exact gives_items rest hrest n depth hn w hw

end

end Value

/-! ## Properties -/

@[simp] theorem allNumbers_table {α : Type} {P : Float → Prop} {f : α → Json}
    {t : Table String α} : (t.toJson f).AllNumbers P ↔ ∀ e ∈ t.entries, (f e.2).AllNumbers P := by
  rw [Table.toJson, allNumbers_object, List.forall_mem_map]

/-- The properties whose values fit under the nesting limit at a depth. -/
def Properties.FitAt (ps : Properties) (depth : Nat) : Prop :=
  ∀ e ∈ ps.entries, depth + e.2.levels ≤ nestingLimit

instance (ps : Properties) (depth : Nat) : Decidable (ps.FitAt depth) :=
  inferInstanceAs (Decidable (∀ e ∈ ps.entries, _))

theorem Properties.gives (ps : Properties) (hps : ps.toJson.Legible) (depth : Nat) :
    Gives (Properties.decoder (ps.toJson.sketch depth))
      (depth < nestingLimit ∧ ps.FitAt (depth + 1)) ps := by
  have hvalue : ∀ e ∈ ps.entries, Gives (Value.decoder (e.2.toJson.sketch (depth + 1)))
      (depth + 1 + e.2.levels ≤ nestingLimit) e.2 := fun e he =>
    e.2.gives (allNumbers_table.mp hps e he) nestingLimit (depth + 1) (by omega)
  have htable := gives_asTable (f := Value.toJson) (b := fun v => v)
    (p := fun v => depth + 1 + v.levels ≤ nestingLimit) ps hvalue
  rw [Table.mapValues_self] at htable
  exact htable

end Credence
