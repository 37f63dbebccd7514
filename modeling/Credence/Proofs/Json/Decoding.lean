import Credence.Proofs.Collection.Table
import Credence.Proofs.Json.Page

/-!
# Taking a written value apart again

The sketch of a written value has every field in its place, so only one thing can go wrong when it
is decoded: a list or an object may stand too deep.  `Gives r p a` says that a result is the value
`a` exactly if `p`, the condition that everything inside fits, and that the text counts as
unreadable otherwise.  The lemmas put conditions together the way decoders put values together.
-/

namespace Credence.Json

variable {α β σ : Type} {p q : Prop}

/-- A result that is a value under a condition, and a fault of the text otherwise. -/
structure Gives (r : Decoded α) (p : Prop) (a : α) : Prop where
  value (hp : p) : r = .ok a
  fault (hp : ¬ p) : r = .error .unreadable

theorem ok_bind (a : α) (f : α → Decoded β) : ((Except.ok a : Decoded α) >>= f) = f a := rfl

namespace Gives

variable {r : Decoded α} {a : α} {b : β}

theorem ok (a : α) : Gives (.ok a) True a where
  value _ := rfl
  fault hp := absurd trivial hp

theorem of_eq (h : r = .ok a) : Gives r True a := h ▸ ok a

theorem congr (h : Gives r p a) (hpq : p ↔ q) : Gives r q a where
  value hq := h.value (hpq.mpr hq)
  fault hq := h.fault fun hp => hq (hpq.mp hp)

theorem eq (h : Gives r p a) [Decidable p] : r = if p then .ok a else .error .unreadable := by
  by_cases hp : p
  · rw [if_pos hp, h.value hp]
  · rw [if_neg hp, h.fault hp]

theorem bind {f : α → Decoded β} (h : Gives r p a) (hf : Gives (f a) q b) :
    Gives (r >>= f) (p ∧ q) b where
  value hpq := by
    rw [h.value hpq.1]
    exact hf.value hpq.2
  fault hpq := by
    by_cases hp : p
    · rw [h.value hp]
      exact hf.fault fun hq => hpq ⟨hp, hq⟩
    · rw [h.fault hp]
      rfl

theorem map (f : α → β) (h : Gives r p a) : Gives (f <$> r) p (f a) where
  value hp := by rw [h.value hp]; rfl
  fault hp := by rw [h.fault hp]; rfl

/-- The inside of a list or an object that may stand too deep. -/
theorem within {depth : Nat} (h : Gives r p a) :
    Gives (Draft.within depth r) (depth < nestingLimit ∧ p) a where
  value hp := by
    rw [Draft.within, if_neg (by omega)]
    exact h.value hp.2
  fault hp := by
    unfold Draft.within
    by_cases hdepth : nestingLimit ≤ depth
    · rw [if_pos hdepth]
    · rw [if_neg hdepth]
      exact h.fault fun hq => hp ⟨by omega, hq⟩

end Gives

/-! ## The numbers of a document -/

/-- Every number in a document is of a kind. -/
def AllNumbers (P : Float → Prop) (j : Json) : Prop := ∀ x ∈ j.numbers, P x

section

variable {P : Float → Prop}

@[simp] theorem allNumbers_null : null.AllNumbers P := fun _ hx => nomatch hx

@[simp] theorem allNumbers_bool {b : Bool} : (bool b).AllNumbers P := fun _ hx => nomatch hx

@[simp] theorem allNumbers_number {x : Float} : (number x).AllNumbers P ↔ P x :=
  List.forall_mem_singleton

@[simp] theorem allNumbers_text {s : String} : (text s).AllNumbers P := fun _ hx => nomatch hx

@[simp] theorem allNumbers_list {items : List Json} :
    (list items).AllNumbers P ↔ ∀ j ∈ items, j.AllNumbers P := by
  induction items with
  | nil => simp [AllNumbers, numbers, itemNumbers]
  | cons j rest ih =>
      show (∀ x ∈ j.numbers ++ itemNumbers rest, P x) ↔ _
      rw [List.forall_mem_append, List.forall_mem_cons]
      exact and_congr_right fun _ => ih

@[simp] theorem allNumbers_object {fields : List (String × Json)} :
    (object fields).AllNumbers P ↔ ∀ field ∈ fields, field.2.AllNumbers P := by
  induction fields with
  | nil => simp [AllNumbers, numbers, fieldNumbers]
  | cons field rest ih =>
      show (∀ x ∈ field.2.numbers ++ fieldNumbers rest, P x) ↔ _
      rw [List.forall_mem_append, List.forall_mem_cons]
      exact and_congr_right fun _ => ih

end

/-- Every number in a document is read back. -/
abbrev Legible (j : Json) : Prop := j.AllNumbers ReadsBack

theorem Legible.readable {j : Json} (hj : j.Legible) : j.Readable := fun x hx => (hj x hx).alone.1

/-! ## Simple values -/

theorem gives_text (s : String) (depth : Nat) :
    Gives (Draft.asText ((text s).sketch depth)) True s := .ok s

theorem gives_bool (b : Bool) (depth : Nat) :
    Gives (Draft.asBool ((bool b).sketch depth)) True b := .ok b

theorem gives_number {x : Float} (hx : ReadsBack x) (depth : Nat) :
    Gives (Draft.asNumber ((number x).sketch depth)) True x := .of_eq hx.alone.2

/-- A text with a meaning. -/
theorem gives_meant {meaning : String → Option α} {s : String} {a : α} (h : meaning s = some a)
    (depth : Nat) : Gives (Draft.asMeant meaning ((text s).sketch depth)) True a := by
  refine .of_eq ?_
  rw [sketch, Draft.asMeant, Draft.asText]
  simp only [bind, Except.bind, h]
  rfl

/-! ## Lists -/

theorem sketchItems_eq_map (items : List Json) (depth : Nat) :
    sketchItems items depth = items.map fun j => j.sketch depth := by
  induction items with
  | nil => rfl
  | cons item rest ih => rw [sketchItems, List.map_cons, ih]

theorem gives_mapM {f : α → Draft} {decode : Decoder β} {p : α → Prop} {b : α → β}
    (l : List α) (h : ∀ a ∈ l, Gives (decode (f a)) (p a) (b a)) :
    Gives ((l.map f).mapM decode) (∀ a ∈ l, p a) (l.map b) := by
  induction l with
  | nil => exact (Gives.ok []).congr (by simp)
  | cons a l ih =>
      have hrest := ih fun x hx => h x (List.mem_cons_of_mem a hx)
      rw [List.map_cons, List.mapM_cons, List.map_cons]
      refine ((h a List.mem_cons_self).bind
        (hrest.bind (f := fun bs => pure (b a :: bs)) (Gives.ok _))).congr ?_
      rw [and_true, List.forall_mem_cons]

/-- A written list is read item by item. -/
theorem gives_asList {f : α → Json} {decode : Decoder β} {p : α → Prop} {b : α → β}
    {n : Nat} (l : List α)
    (h : ∀ a ∈ l, Gives (decode ((f a).sketch (n + 1))) (p a) (b a)) :
    Gives (Draft.asList decode ((list (l.map f)).sketch n))
      (n < nestingLimit ∧ ∀ a ∈ l, p a) (l.map b) := by
  have hsketch : (list (l.map f)).sketch n =
      .list n (l.map fun a => (f a).sketch (n + 1)) true := by
    rw [sketch, sketchItems_eq_map, List.map_map]
    rfl
  rw [hsketch]
  exact (((gives_mapM l h).bind (Gives.ok _)).congr (and_iff_left trivial)).within

/-! ## Tables -/

theorem sketchFields_eq_map (fields : List (String × Json)) (depth : Nat) :
    sketchFields fields depth = fields.map fun e => (some e.1, e.2.sketch depth) := by
  induction fields with
  | nil => rfl
  | cons field rest ih =>
      obtain ⟨key, value⟩ := field
      rw [sketchFields, List.map_cons, ih]

theorem gives_entries {f : α → Draft} {decode : Decoder β} {p : α → Prop} {b : α → β}
    (es : List (String × α)) (h : ∀ e ∈ es, Gives (decode (f e.2)) (p e.2) (b e.2))
    (t : Table String β) :
    Gives (Draft.entries decode (es.map fun e => (some e.1, f e.2)) t) (∀ e ∈ es, p e.2)
      (es.foldl (fun t e => t.insert e.1 (b e.2)) t) := by
  induction es generalizing t with
  | nil => exact (Gives.ok t).congr (by simp)
  | cons e es ih =>
      have hrest := ih (fun x hx => h x (List.mem_cons_of_mem e hx)) (t.insert e.1 (b e.2))
      rw [List.map_cons, List.foldl_cons]
      refine ((h e List.mem_cons_self).bind hrest).congr ?_
      rw [List.forall_mem_cons]

/-- A written table is read entry by entry. -/
theorem gives_asTable {f : α → Json} {decode : Decoder β} {p : α → Prop} {b : α → β}
    {n : Nat} (t : Table String α)
    (h : ∀ e ∈ t.entries, Gives (decode ((f e.2).sketch (n + 1))) (p e.2) (b e.2)) :
    Gives (Draft.asTable decode ((object (t.entries.map fun e => (e.1, f e.2))).sketch n))
      (n < nestingLimit ∧ ∀ e ∈ t.entries, p e.2) (t.mapValues fun _ a => b a) := by
  have hsketch : (object (t.entries.map fun e => (e.1, f e.2))).sketch n =
      .object n (t.entries.map fun e => (some e.1, (f e.2).sketch (n + 1))) true := by
    rw [sketch, sketchFields_eq_map, List.map_map]
    rfl
  have htable : t.entries.foldl (fun t e => t.insert e.1 (b e.2)) ∅ =
      t.mapValues fun _ a => b a := by
    rw [← Table.ofList_entries (t.mapValues fun _ a => b a)]
    show _ = (t.entries.map fun e => (e.1, b e.2)).foldl
      (fun (t : Table String β) e => t.insert e.1 e.2) ∅
    rw [List.foldl_map]
  have hentries := gives_entries (f := fun a => (f a).sketch (n + 1)) t.entries h ∅
  rw [hsketch, ← htable]
  exact ((hentries.bind (Gives.ok _)).congr (and_iff_left trivial)).within

/-! ## Records -/

variable {known : List (Draft.Field σ)} {seen : List String} {s : σ} {depth : Nat}

theorem gives_noFields : Gives (Draft.fieldsByName known (sketchFields [] depth) seen s) True
    (seen, s) := Gives.ok _

/-- A written record is read field by field. -/
theorem gives_field {name : String} {required : Bool} {decode : Decoder α} {put : σ → α → σ}
    {j : Json} {rest : List (String × Json)} {a : α} {outcome : List String × σ}
    (hfind : known.find? (fun f => f.name = name) =
      some ⟨name, required, fun d s => put s <$> decode d⟩) (hnew : name ∉ seen)
    (hvalue : Gives (decode (j.sketch depth)) p a)
    (hrest : Gives (Draft.fieldsByName known (sketchFields rest depth) (name :: seen) (put s a)) q
      outcome) :
    Gives (Draft.fieldsByName known (sketchFields ((name, j) :: rest) depth) seen s) (p ∧ q)
      outcome := by
  rw [sketchFields, Draft.fieldsByName, hfind]
  dsimp only
  rw [if_neg hnew]
  exact (hvalue.map (put s)).bind hrest

/-- A record is complete when its required fields were read. -/
theorem gives_asRecord {fields : List (String × Json)} {start : σ}
    (h : Gives (Draft.fieldsByName known (sketchFields fields (depth + 1)) [] start) p (seen, s))
    (hcomplete : (known.any fun f => f.required && f.name ∉ seen) = false) :
    Gives (Draft.asRecord known start ((object fields).sketch depth)) (depth < nestingLimit ∧ p)
      s := by
  refine Gives.within ((h.bind (Gives.of_eq ?_)).congr (and_iff_left trivial))
  dsimp only
  rw [hcomplete]
  rfl

end Credence.Json
