import Credence.Collection.Bisection
import Credence.Proofs.Decimal.Order

/-!
# Ranked lists

A ranked list has the items of the highest key first, and items of one key in the order in which
they came.  Such a list is settled by its order and by the items of each key, in their order
(`eq_of_classes`).  So an item is kept in its place by finding where the keys fall below its own:
halving finds that place because the list is ranked (`insertWhere_ranked`).

Items that came in some order are taken out, or changed, by their place in the ranking.  `origin`
tells where they stand in the order in which they came.
-/

namespace Credence

/-! ## Halving -/

/-- Halving ends at zero or at a place that passes, and the next place does not pass. -/
theorem bisect_spec {p : Nat → Bool} {n : Nat} (hp : ∀ i, p i = true ↔ i < n) (base size : Nat)
    (hbase : base = 0 ∨ base < n) (hsize : n ≤ base + max size 1) :
    (bisect p base size = 0 ∨ bisect p base size < n) ∧ n ≤ bisect p base size + 1 := by
  fun_induction bisect p base size with
  | case1 base size hone =>
      refine ⟨hbase, ?_⟩
      omega
  | case2 base size hmore middle ih =>
      by_cases hmiddle : p middle = true
      · rw [dif_pos hmiddle] at ih
        rw [if_pos hmiddle]
        have hbelow : middle < n := (hp middle).mp hmiddle
        apply ih
        · exact .inr hbelow
        · omega
      · rw [dif_neg hmiddle] at ih
        rw [if_neg hmiddle]
        have habove : ¬ middle < n := fun h => hmiddle ((hp middle).mpr h)
        apply ih
        · exact hbase
        · omega

section Insertion

variable {α : Type} {p : α → Bool} {front back : List α}

/-- If the passing items stand before the others, the partition point is between them. -/
theorem partitionPoint_append (hfront : ∀ a ∈ front, p a = true) (hback : ∀ a ∈ back, p a = false) :
    partitionPoint p (front ++ back) = front.length := by
  have hpasses : ∀ i, ((front ++ back)[i]?).any p = true ↔ i < front.length := by
    intro i
    by_cases hi : i < front.length
    · rw [List.getElem?_append_left hi, List.getElem?_eq_getElem hi, Option.any_some]
      exact iff_of_true (hfront _ (List.getElem_mem hi)) hi
    · rw [List.getElem?_append_right (Nat.le_of_not_lt hi)]
      refine iff_of_false ?_ hi
      rcases hget : back[i - front.length]? with - | a
      · exact Bool.false_ne_true
      · rw [Option.any_some, hback a (List.mem_of_getElem? hget)]
        exact Bool.false_ne_true
  have hlength : front.length ≤ 0 + max (front ++ back).length 1 := by
    rw [List.length_append]
    omega
  obtain ⟨hplace, hnext⟩ := bisect_spec hpasses 0 (front ++ back).length (.inl rfl) hlength
  unfold partitionPoint
  dsimp only
  split
  · rename_i hpass
    rw [hpasses] at hpass
    omega
  · rename_i hfail
    rw [hpasses] at hfail
    omega

theorem insertWhere_append (hfront : ∀ a ∈ front, p a = true) (hback : ∀ a ∈ back, p a = false)
    (a : α) : insertWhere p a (front ++ back) = front ++ a :: back := by
  unfold insertWhere
  rw [partitionPoint_append hfront hback]
  dsimp only
  rw [List.take_left, List.drop_left]

/-- What a test does not see makes no difference to where an item is put. -/
theorem map_insertWhere {β : Type} (f : α → β) {q : β → Bool} (hq : ∀ b, q (f b) = p b) (a : α)
    (l : List α) : (insertWhere p a l).map f = insertWhere q (f a) (l.map f) := by
  have hpasses : ∀ i : Nat, ((l.map f)[i]?).any q = (l[i]?).any p := by
    intro i
    rw [List.getElem?_map, Option.any_map]
    exact congrArg (fun test => (l[i]?).any test) (funext hq)
  have hplace : partitionPoint q (l.map f) = partitionPoint p l := by
    simp only [partitionPoint, hpasses, List.length_map]
  unfold insertWhere
  rw [hplace]
  dsimp only
  rw [List.map_append, List.map_cons, List.map_take, List.map_drop]

end Insertion

/-! ## The ranking -/

section Ranked

variable {α κ : Type} [LinearOrder κ] {key : α → κ} {l S T : List α}

/-- The items of the highest key first; those of one key keep their order. -/
def ranked (key : α → κ) (l : List α) : List α := l.mergeSort fun a b => key b ≤ key a

/-- The items of one key. -/
def ofKey (key : α → κ) (k : κ) (l : List α) : List α := l.filter fun a => key a = k

theorem key_of_mem_ofKey {k : κ} {a : α} (h : a ∈ ofKey key k l) : a ∈ l ∧ key a = k := by
  obtain ⟨hmem, hkey⟩ := List.mem_filter.mp h
  exact ⟨hmem, of_decide_eq_true hkey⟩

theorem ofKey_cons_of_eq {k : κ} {a : α} (h : key a = k) :
    ofKey key k (a :: l) = a :: ofKey key k l :=
  List.filter_cons_of_pos (decide_eq_true h)

theorem ofKey_cons_of_ne {k : κ} {a : α} (h : key a ≠ k) :
    ofKey key k (a :: l) = ofKey key k l :=
  List.filter_cons_of_neg (by simpa using h)

theorem ofKey_append (k : κ) : ofKey key k (S ++ T) = ofKey key k S ++ ofKey key k T :=
  List.filter_append ..

theorem transitive_rank (key : α → κ) (a b c : α) (hab : decide (key b ≤ key a) = true)
    (hbc : decide (key c ≤ key b) = true) : decide (key c ≤ key a) = true :=
  decide_eq_true ((of_decide_eq_true hbc).trans (of_decide_eq_true hab))

theorem total_rank (key : α → κ) (a b : α) :
    (decide (key b ≤ key a) || decide (key a ≤ key b)) = true := by
  rw [Bool.or_eq_true, decide_eq_true_eq, decide_eq_true_eq]
  exact le_total _ _

theorem pairwise_ranked (key : α → κ) (l : List α) :
    (ranked key l).Pairwise fun a b => key b ≤ key a := by
  have h := List.pairwise_mergeSort (transitive_rank key) (total_rank key) l
  exact h.imp of_decide_eq_true

theorem perm_ranked (key : α → κ) (l : List α) : (ranked key l).Perm l := List.mergeSort_perm l _

/-- The items of one key stand in the ranking as they came. -/
theorem ofKey_ranked (key : α → κ) (k : κ) (l : List α) :
    ofKey key k (ranked key l) = ofKey key k l := by
  have hequal : (ofKey key k l).Pairwise fun a b => decide (key b ≤ key a) = true := by
    rw [List.pairwise_iff_forall_sublist]
    intro a b hab
    obtain ⟨-, ha⟩ := key_of_mem_ofKey (hab.subset List.mem_cons_self)
    obtain ⟨-, hb⟩ := key_of_mem_ofKey (hab.subset (List.mem_cons_of_mem a List.mem_cons_self))
    rw [decide_eq_true_eq, ha, hb]
  have hsublist : (ofKey key k l).Sublist (ranked key l) :=
    List.sublist_mergeSort (transitive_rank key) (total_rank key) hequal List.filter_sublist
  have hclass : (ofKey key k (ofKey key k l)).Sublist (ofKey key k (ranked key l)) :=
    hsublist.filter _
  have hidem : ofKey key k (ofKey key k l) = ofKey key k l := by
    unfold ofKey
    rw [List.filter_filter]
    simp only [Bool.and_self]
  rw [hidem] at hclass
  exact (hclass.eq_of_length ((perm_ranked key l).filter _).length_eq.symm).symm

/-- A ranked list is settled by the items of each key. -/
theorem eq_of_classes (hS : S.Pairwise fun a b => key b ≤ key a)
    (hT : T.Pairwise fun a b => key b ≤ key a) (hclasses : ∀ k, ofKey key k S = ofKey key k T) :
    S = T := by
  induction S generalizing T with
  | nil =>
      cases T with
      | nil => rfl
      | cons b T =>
          have hb := hclasses (key b)
          rw [ofKey_cons_of_eq rfl] at hb
          nomatch hb
  | cons a S ih =>
      cases T with
      | nil =>
          have ha := hclasses (key a)
          rw [ofKey_cons_of_eq rfl] at ha
          nomatch ha
      | cons b T =>
          obtain ⟨hfirst, hrest⟩ := List.pairwise_cons.mp hS
          obtain ⟨hfirst', hrest'⟩ := List.pairwise_cons.mp hT
          -- each first item occurs in the other list, so neither key is above the other
          have hle : key a ≤ key b := by
            have ha : a ∈ ofKey key (key a) (b :: T) := by
              rw [← hclasses, ofKey_cons_of_eq rfl]
              exact List.mem_cons_self
            rcases List.mem_cons.mp (key_of_mem_ofKey ha).1 with rfl | hmem
            · exact le_rfl
            · exact hfirst' a hmem
          have hge : key b ≤ key a := by
            have hb : b ∈ ofKey key (key b) (a :: S) := by
              rw [hclasses, ofKey_cons_of_eq rfl]
              exact List.mem_cons_self
            rcases List.mem_cons.mp (key_of_mem_ofKey hb).1 with rfl | hmem
            · exact le_rfl
            · exact hfirst b hmem
          have hkey : key b = key a := le_antisymm hge hle
          have hhead := hclasses (key a)
          rw [ofKey_cons_of_eq rfl, ofKey_cons_of_eq hkey] at hhead
          obtain ⟨rfl, -⟩ := List.cons.inj hhead
          refine congrArg (a :: ·) (ih hrest hrest' fun k => ?_)
          have hk := hclasses k
          by_cases hak : key a = k
          · rw [ofKey_cons_of_eq hak, ofKey_cons_of_eq hak] at hk
            exact (List.cons.inj hk).2
          · rw [ofKey_cons_of_ne hak, ofKey_cons_of_ne hak] at hk
            exact hk

theorem eq_ranked (hS : S.Pairwise fun a b => key b ≤ key a)
    (hclasses : ∀ k, ofKey key k S = ofKey key k l) : S = ranked key l := by
  refine eq_of_classes hS (pairwise_ranked key l) fun k => ?_
  rw [hclasses, ofKey_ranked]

/-- Leaving items out does not change the ranking of the others. -/
theorem ranked_filter (key : α → κ) (q : α → Bool) (l : List α) :
    ranked key (l.filter q) = (ranked key l).filter q := by
  symm
  apply eq_ranked
  · exact (pairwise_ranked key l).filter q
  · intro k
    have hranked : (ofKey key k (ranked key l)).filter q = (ofKey key k l).filter q := by
      rw [ofKey_ranked]
    unfold ofKey at hranked ⊢
    rw [List.filter_comm, hranked, List.filter_comm]

/-- Items that change without their keys keep their places. -/
theorem ranked_map {f : α → α} (hf : ∀ a ∈ l, key (f a) = key a) :
    ranked key (l.map f) = (ranked key l).map f := by
  symm
  apply List.map_mergeSort
  intro a ha b hb
  rw [hf a ha, hf b hb]

/-- The keys of a ranked list fall below any bound once and for all. -/
theorem exists_parts (hS : S.Pairwise fun a b => key b ≤ key a) (k : κ) :
    ∃ front back, S = front ++ back ∧ (∀ b ∈ front, k ≤ key b) ∧ ∀ b ∈ back, key b < k := by
  induction S with
  | nil => exact ⟨[], [], rfl, List.forall_mem_nil _, List.forall_mem_nil _⟩
  | cons a S ih =>
      obtain ⟨hfirst, hrest⟩ := List.pairwise_cons.mp hS
      rcases le_or_gt k (key a) with hle | hlt
      · obtain ⟨front, back, rfl, hfront, hback⟩ := ih hrest
        exact ⟨a :: front, back, rfl, List.forall_mem_cons.mpr ⟨hle, hfront⟩, hback⟩
      · refine ⟨[], a :: S, rfl, List.forall_mem_nil _, List.forall_mem_cons.mpr ⟨hlt, ?_⟩⟩
        intro b hb
        exact (hfirst b hb).trans_lt hlt

/-- A new item finds its place in the ranking where the keys fall below its own: it comes last among
the items of its key. -/
theorem insertWhere_ranked {p : α → Bool} {a : α} (hp : ∀ b ∈ l, p b = true ↔ key a ≤ key b) :
    insertWhere p a (ranked key l) = ranked key (l ++ [a]) := by
  have hmem : ∀ b ∈ ranked key l, p b = true ↔ key a ≤ key b :=
    fun b hb => hp b ((perm_ranked key l).mem_iff.mp hb)
  have hsorted := pairwise_ranked key l
  obtain ⟨front, back, hparts, hfront, hback⟩ := exists_parts hsorted (key a)
  have hclass := ofKey_ranked key (l := l)
  rw [hparts] at hmem hsorted hclass ⊢
  rw [insertWhere_append (fun b hb => (hmem b (List.mem_append_left _ hb)).mpr (hfront b hb))
    (fun b hb => Bool.eq_false_iff.mpr fun h =>
      (hback b hb).not_ge ((hmem b (List.mem_append_right _ hb)).mp h))]
  apply eq_ranked
  · obtain ⟨hpfront, hpback, hcross⟩ := List.pairwise_append.mp hsorted
    refine List.pairwise_append.mpr ⟨hpfront, List.pairwise_cons.mpr ⟨?_, hpback⟩, ?_⟩
    · intro b hb
      exact (hback b hb).le
    · intro b hb c hc
      rcases List.mem_cons.mp hc with rfl | hc
      · exact hfront b hb
      · exact hcross b hb c hc
  · intro k
    rw [ofKey_append, ofKey_append, ← hclass, ofKey_append]
    by_cases hk : key a = k
    · -- what comes after the new item has lower keys
      have hnone : ofKey key k back = [] := by
        rw [List.eq_nil_iff_forall_not_mem]
        intro b hb
        obtain ⟨hmem, rfl⟩ := key_of_mem_ofKey hb
        exact (hback b hmem).ne' hk
      rw [ofKey_cons_of_eq hk, ofKey_cons_of_eq hk, hnone, List.append_nil]
      rfl
    · rw [ofKey_cons_of_ne hk, ofKey_cons_of_ne hk]
      exact (List.append_nil _).symm

end Ranked

/-! ## Items by their places -/

section Places

variable {α β : Type}

theorem eraseP_eq_eraseIdx_findIdx (p : α → Bool) (l : List α) :
    l.eraseP p = l.eraseIdx (l.findIdx p) := by
  induction l with
  | nil => rfl
  | cons a l ih =>
      cases ha : p a with
      | true =>
          rw [List.eraseP_cons_of_pos ha, List.findIdx_cons, ha]
          rfl
      | false =>
          rw [List.eraseP_cons_of_neg (Bool.eq_false_iff.mp ha), List.findIdx_cons, ha, ih]
          rfl

/-- Lists that show the same still do after changes at one place that show the same. -/
theorem map_modify_eq {γ : Type} {d : α → γ} {e : β → γ} {as : List α} {bs : List β} {i : Nat}
    {f : α → α} {g : β → β} (h : as.map d = bs.map e)
    (hfg : ∀ a b, as[i]? = some a → b ∈ bs → d a = e b → d (f a) = e (g b)) :
    (as.modify i f).map d = (bs.modify i g).map e := by
  induction as generalizing bs i with
  | nil =>
      obtain rfl := List.map_eq_nil_iff.mp h.symm
      cases i <;> rfl
  | cons a as ih =>
      cases bs with
      | nil => nomatch h
      | cons b bs =>
          obtain ⟨hfirst, hrest⟩ := List.cons.inj h
          cases i with
          | zero =>
              rw [List.modify_zero_cons, List.modify_zero_cons, List.map_cons, List.map_cons, hrest,
                hfg a b rfl List.mem_cons_self hfirst]
          | succ i =>
              rw [List.modify_succ_cons, List.modify_succ_cons, List.map_cons, List.map_cons,
                hfirst, ih hrest fun a b ha hb => hfg a b ha (List.mem_cons_of_mem _ hb)]

theorem mem_modify {i : Nat} {f : α → α} {l : List α} {b : α} (h : b ∈ l.modify i f) :
    b ∈ l ∨ ∃ a ∈ l, b = f a := by
  obtain ⟨j, hj⟩ := List.mem_iff_getElem?.mp h
  rw [List.getElem?_modify] at hj
  obtain ⟨a, ha, rfl⟩ := Option.map_eq_some_iff.mp hj
  have hmem := List.mem_of_getElem? ha
  by_cases hij : i = j
  · exact .inr ⟨a, hmem, if_pos hij⟩
  · exact .inl (by rwa [if_neg hij])

end Places

section Labelled

variable {α : Type} {Z : List (α × Nat)} {i : Nat}

/-- What stands at a place of a list is known by its label, if no label occurs twice. -/
theorem eraseIdx_eq_filter (hnodup : (Z.map Prod.snd).Nodup) (hi : i < Z.length) :
    Z.eraseIdx i = Z.filter fun z => z.2 ≠ Z[i].2 := by
  induction Z generalizing i with
  | nil => nomatch hi
  | cons z Z ih =>
      rw [List.map_cons, List.nodup_cons] at hnodup
      obtain ⟨hfresh, hrest⟩ := hnodup
      cases i with
      | zero =>
          have hall : ∀ y ∈ Z, decide (y.2 ≠ z.2) = true := by
            intro y hy
            refine decide_eq_true fun hsame => hfresh ?_
            rw [← hsame]
            exact List.mem_map_of_mem hy
          rw [List.eraseIdx_cons_zero, List.getElem_cons_zero,
            List.filter_cons_of_neg (by simp), List.filter_eq_self.mpr hall]
      | succ i =>
          have hi' : i < Z.length := Nat.lt_of_succ_lt_succ hi
          have hz : z.2 ≠ Z[i].2 := by
            intro hsame
            refine hfresh ?_
            rw [hsame]
            exact List.mem_map_of_mem (List.getElem_mem hi')
          rw [List.eraseIdx_cons_succ, List.getElem_cons_succ, ih hrest hi']
          symm
          apply List.filter_cons_of_pos
          exact decide_eq_true hz

/-- Changes what stands at a place, told by its label. -/
def relabel (n : Nat) (f : α → α) (z : α × Nat) : α × Nat := if z.2 = n then (f z.1, z.2) else z

theorem map_fst_modify (f : α → α) (Z : List (α × Nat)) (i : Nat) :
    (Z.modify i fun z => (f z.1, z.2)).map Prod.fst = (Z.map Prod.fst).modify i f := by
  induction Z generalizing i with
  | nil => cases i <;> rfl
  | cons z Z ih =>
      cases i with
      | zero => rfl
      | succ i => exact congrArg (z.1 :: ·) (ih i)

theorem modify_eq_map (hnodup : (Z.map Prod.snd).Nodup) (hi : i < Z.length) (f : α → α) :
    Z.modify i (fun z => (f z.1, z.2)) = Z.map (relabel Z[i].2 f) := by
  induction Z generalizing i with
  | nil => nomatch hi
  | cons z Z ih =>
      rw [List.map_cons, List.nodup_cons] at hnodup
      obtain ⟨hfresh, hrest⟩ := hnodup
      cases i with
      | zero =>
          have hall : Z.map (relabel z.2 f) = Z := by
            refine (List.map_congr_left fun y hy => ?_).trans (List.map_id Z)
            refine if_neg fun hsame => hfresh ?_
            rw [← hsame]
            exact List.mem_map_of_mem hy
          rw [List.modify_zero_cons, List.getElem_cons_zero, List.map_cons, hall, relabel,
            if_pos rfl]
      | succ i =>
          have hi' : i < Z.length := Nat.lt_of_succ_lt_succ hi
          have hz : z.2 ≠ Z[i].2 := by
            intro hsame
            refine hfresh ?_
            rw [hsame]
            exact List.mem_map_of_mem (List.getElem_mem hi')
          rw [List.modify_succ_cons, List.getElem_cons_succ, List.map_cons, relabel, if_neg hz,
            ih hrest hi']

end Labelled

/-! ## Lists ranked by a weight -/

section Weight

open Decimal (rank)

variable {α : Type} {w : α → Float} {l : List α} {i : Nat}

/-- The heaviest items first; items of one weight keep their order. -/
def byWeight (w : α → Float) (l : List α) : List α := l.mergeSort fun a b => w b ≤ w a

/-- Where the item at a place of the ranking stands in the list; past the end if there is none. -/
def origin (w : α → Float) (l : List α) (i : Nat) : Nat :=
  ((byWeight (fun z => w z.1) l.zipIdx)[i]?).elim l.length Prod.snd

/-- Defined weights are compared by their ranks. -/
theorem byWeight_eq_ranked (hl : ∀ a ∈ l, (w a).isNaN = false) :
    byWeight w l = ranked (fun a => rank (w a)) l := by
  have hmap := List.map_mergeSort (r := fun a b => decide (w b ≤ w a))
    (s := fun a b => decide (rank (w b) ≤ rank (w a))) (f := id) (l := l) fun a ha b hb => by
      rw [decide_eq_decide, Decimal.le_iff_rank (hl b hb) (hl a ha)]
      rfl
  rw [List.map_id, List.map_id] at hmap
  exact hmap

/-- An item that is put behind those that weigh as much comes last among them. -/
theorem insertWhere_byWeight {a : α} (hl : ∀ b ∈ l, (w b).isNaN = false)
    (ha : (w a).isNaN = false) :
    insertWhere (fun b => w a ≤ w b) a (byWeight w l) = byWeight w (l ++ [a]) := by
  have hall : ∀ b ∈ l ++ [a], (w b).isNaN = false := by
    intro b hb
    rcases List.mem_append.mp hb with hb | hb
    · exact hl b hb
    · rw [List.mem_singleton.mp hb]
      exact ha
  rw [byWeight_eq_ranked hl, byWeight_eq_ranked hall]
  apply insertWhere_ranked
  intro b hb
  rw [decide_eq_true_eq, Decimal.le_iff_rank ha (hl b hb)]

/-- Items that are put in one after the other come to stand in their ranking. -/
theorem foldl_insertWhere_byWeight (hl : ∀ a ∈ l, (w a).isNaN = false) :
    l.foldl (fun acc a => insertWhere (fun b => w a ≤ w b) a acc) [] = byWeight w l := by
  induction l using List.reverseRecOn with
  | nil => exact List.mergeSort_nil.symm
  | append_singleton l a ih =>
      obtain ⟨hfront, hlast⟩ := List.forall_mem_append.mp hl
      rw [List.foldl_append, ih hfront]
      exact insertWhere_byWeight hfront (hlast a List.mem_cons_self)

/-! ### Origins -/

theorem defined_zipIdx (hl : ∀ a ∈ l, (w a).isNaN = false) :
    ∀ z ∈ l.zipIdx, (w z.1).isNaN = false := by
  intro z hz
  apply hl
  rw [← List.zipIdx_map_fst 0 l]
  exact List.mem_map_of_mem hz

/-- The places do not matter for the ranking. -/
theorem map_byWeight (Z : List (α × Nat)) :
    (byWeight (fun z => w z.1) Z).map Prod.fst = byWeight w (Z.map Prod.fst) :=
  List.map_mergeSort fun _ _ _ _ => rfl

theorem map_byWeight_zipIdx (w : α → Float) (l : List α) :
    (byWeight (fun z => w z.1) l.zipIdx).map Prod.fst = byWeight w l := by
  rw [map_byWeight, List.zipIdx_map_fst]

theorem length_byWeight (w : α → Float) (l : List α) : (byWeight w l).length = l.length :=
  List.length_mergeSort _

theorem nodup_zipIdx (l : List α) : (l.zipIdx.map Prod.snd).Nodup := by
  rw [List.zipIdx_map_snd]
  exact List.nodup_range'

theorem nodup_byWeight_zipIdx (w : α → Float) (l : List α) :
    ((byWeight (fun z => w z.1) l.zipIdx).map Prod.snd).Nodup :=
  ((List.mergeSort_perm l.zipIdx _).map Prod.snd).nodup_iff.mpr (nodup_zipIdx l)

/-- Where an item stands in the list is what its label in the ranking says. -/
theorem origin_spec (w : α → Float) (l : List α) (hi : i < l.length) :
    ∃ (hZ : i < (byWeight (fun z => w z.1) l.zipIdx).length) (hj : origin w l i < l.zipIdx.length),
      ((byWeight (fun z => w z.1) l.zipIdx)[i]).2 = origin w l i ∧
        (l.zipIdx[origin w l i]).2 = origin w l i := by
  have hZ : i < (byWeight (fun z => w z.1) l.zipIdx).length := by
    rw [length_byWeight, List.length_zipIdx]
    exact hi
  have horigin : origin w l i = ((byWeight (fun z => w z.1) l.zipIdx)[i]).2 := by
    rw [origin, List.getElem?_eq_getElem hZ]
    rfl
  have hj : origin w l i < l.zipIdx.length := by
    have hmem := (List.mergeSort_perm l.zipIdx _).mem_iff.mp (List.getElem_mem hZ)
    have hlabel := List.mem_map_of_mem (f := Prod.snd) hmem
    rw [List.zipIdx_map_snd, List.mem_range'_1] at hlabel
    rw [horigin, List.length_zipIdx]
    omega
  refine ⟨hZ, hj, horigin.symm, ?_⟩
  rw [List.getElem_zipIdx]
  exact Nat.zero_add _

theorem origin_of_length_le (h : l.length ≤ i) : origin w l i = l.length := by
  rw [origin, List.getElem?_eq_none]
  · rfl
  · rw [length_byWeight, List.length_zipIdx]
    exact h

/-- An item is taken out of the ranking by taking it out where it stands in the list. -/
theorem byWeight_eraseIdx_origin (hl : ∀ a ∈ l, (w a).isNaN = false) (i : Nat) :
    byWeight w (l.eraseIdx (origin w l i)) = (byWeight w l).eraseIdx i := by
  rcases Nat.lt_or_ge i l.length with hi | hi
  · obtain ⟨hZ, hj, hlabel, hlabel'⟩ := origin_spec w l hi
    have hlist : l.eraseIdx (origin w l i) =
        (l.zipIdx.filter fun z => z.2 ≠ origin w l i).map Prod.fst := by
      have herase := eraseIdx_eq_filter (nodup_zipIdx l) hj
      rw [hlabel'] at herase
      rw [← herase, ← List.eraseIdx_map, List.zipIdx_map_fst]
    have hranking : (byWeight w l).eraseIdx i =
        ((byWeight (fun z => w z.1) l.zipIdx).filter fun z => z.2 ≠ origin w l i).map Prod.fst := by
      have herase := eraseIdx_eq_filter (nodup_byWeight_zipIdx w l) hZ
      rw [hlabel] at herase
      rw [← herase, ← List.eraseIdx_map, map_byWeight_zipIdx]
    have hdefined := defined_zipIdx hl
    rw [hlist, hranking, ← map_byWeight, byWeight_eq_ranked hdefined, byWeight_eq_ranked
      fun z hz => hdefined z (List.mem_of_mem_filter hz), ranked_filter]
  · rw [origin_of_length_le hi, List.eraseIdx_of_length_le (Nat.le_refl _),
      List.eraseIdx_of_length_le]
    rw [length_byWeight]
    exact hi

/-- An item of the ranking is changed by changing it where it stands in the list. -/
theorem byWeight_modify_origin {f : α → α} (hf : ∀ a, w (f a) = w a)
    (hl : ∀ a ∈ l, (w a).isNaN = false) (i : Nat) :
    byWeight w (l.modify (origin w l i) f) = (byWeight w l).modify i f := by
  rcases Nat.lt_or_ge i l.length with hi | hi
  · obtain ⟨hZ, hj, hlabel, hlabel'⟩ := origin_spec w l hi
    have hlist : l.modify (origin w l i) f =
        (l.zipIdx.map (relabel (origin w l i) f)).map Prod.fst := by
      have hmodify := modify_eq_map (nodup_zipIdx l) hj f
      rw [hlabel'] at hmodify
      rw [← hmodify, map_fst_modify, List.zipIdx_map_fst]
    have hranking : (byWeight w l).modify i f =
        ((byWeight (fun z => w z.1) l.zipIdx).map (relabel (origin w l i) f)).map Prod.fst := by
      have hmodify := modify_eq_map (nodup_byWeight_zipIdx w l) hZ f
      rw [hlabel] at hmodify
      rw [← hmodify, map_fst_modify, map_byWeight_zipIdx]
    have hweight : ∀ z, w (relabel (origin w l i) f z).1 = w z.1 := by
      intro z
      unfold relabel
      split
      · exact hf z.1
      · rfl
    have hdefined := defined_zipIdx hl
    have hdefined' : ∀ z ∈ l.zipIdx.map (relabel (origin w l i) f), (w z.1).isNaN = false := by
      intro z hz
      obtain ⟨y, hy, rfl⟩ := List.mem_map.mp hz
      rw [hweight]
      exact hdefined y hy
    rw [hlist, hranking, ← map_byWeight, byWeight_eq_ranked hdefined,
      byWeight_eq_ranked hdefined']
    refine congrArg (List.map Prod.fst) (ranked_map fun z _ => ?_)
    exact congrArg rank (hweight z)
  · rw [origin_of_length_le hi, List.modify_eq_self (Nat.le_refl _), List.modify_eq_self]
    rw [length_byWeight]
    exact hi

end Weight

end Credence
