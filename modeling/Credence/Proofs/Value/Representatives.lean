import Credence.Ontology.Concept
import Credence.Proofs.Value.Equality

/-!
# Different values up to equality

A list of values is read as a set of which `==` is the equality: it *represents* the values of a
kind if it has one value for each of them and no two that are equal.  Values are collected into such
a list one by one (`Represents.insert`), and how many different values of the kind there are can be
read off its length.

A value with an undefined number is equal to no value, so a list need not have one for it.
-/

namespace Credence

/-- Some values represent those of a kind: they are of the kind, no two of them are equal, and they
leave out none that is equal to itself. -/
structure Represents (kind : Value → Prop) (values : List Value) : Prop where
  sound {v : Value} (hv : v ∈ values) : kind v
  complete {v : Value} (hv : kind v) (hself : (v == v) = true) : ∃ w ∈ values, (w == v) = true
  distinct : values.Pairwise fun v w => (v == w) = false

namespace Represents

variable {kind kind' : Value → Prop} {values : List Value}

theorem congr (hkind : ∀ v, kind v ↔ kind' v) (h : Represents kind values) :
    Represents kind' values where
  sound hv := (hkind _).mp (h.sound hv)
  complete hv := h.complete ((hkind _).mpr hv)
  distinct := h.distinct

theorem nil : Represents (fun _ => False) [] where
  sound hv := absurd hv List.not_mem_nil
  complete hv := hv.elim
  distinct := .nil

/-- One more value goes to the end, unless it is equal to one that is there. -/
theorem insert (h : Represents kind values) (v : Value) :
    Represents (fun w => kind w ∨ w = v)
      (if values.any (· == v) then values else values ++ [v]) := by
  by_cases hany : values.any (· == v) = true
  · rw [if_pos hany]
    refine
      { sound := fun hw => Or.inl (h.sound hw)
        complete := fun {w} hw hself => ?_
        distinct := h.distinct }
    rcases hw with hw | rfl
    · exact h.complete hw hself
    · exact List.any_eq_true.mp hany
  · rw [if_neg hany]
    refine
      { sound := fun {w} hw => ?_
        complete := fun {w} hw hself => ?_
        distinct := ?_ }
    · exact (List.mem_append.mp hw).imp h.sound List.mem_singleton.mp
    · rcases hw with hw | rfl
      · obtain ⟨u, hu, heq⟩ := h.complete hw hself
        exact ⟨u, List.mem_append_left _ hu, heq⟩
      · exact ⟨w, List.mem_append_right _ (List.mem_singleton_self w), hself⟩
    · refine List.pairwise_append.mpr ⟨h.distinct, List.pairwise_singleton _ _, fun a ha b hb => ?_⟩
      rw [List.mem_singleton.mp hb]
      exact Bool.eq_false_iff.mpr fun heq => hany (List.any_eq_true.mpr ⟨a, ha, heq⟩)

/-! ## How many there are -/

variable (h : Represents kind values) (hself : ∀ v, kind v → (v == v) = true)

include h hself

theorem exists_mem_iff (v : Value) :
    (∃ w ∈ values, (w == v) = true) ↔ ∃ u, kind u ∧ (u == v) = true := by
  constructor
  · rintro ⟨w, hw, heq⟩
    exact ⟨w, h.sound hw, heq⟩
  · rintro ⟨u, hu, heq⟩
    obtain ⟨w, hw, heq'⟩ := h.complete hu (hself u hu)
    exact ⟨w, hw, BEq.trans heq' heq⟩

theorem ofValues?_eq_none_iff : Holding.ofValues? values = none ↔ ∀ v, ¬ kind v := by
  constructor
  · intro hnone v hv
    obtain ⟨w, hw, -⟩ := h.complete hv (hself v hv)
    rcases values with - | ⟨u, - | ⟨u', rest⟩⟩
    · exact absurd hw List.not_mem_nil
    · nomatch hnone
    · nomatch hnone
  · intro hnone
    have hempty : values = [] := List.eq_nil_iff_forall_not_mem.mpr fun v hv => hnone v (h.sound hv)
    rw [hempty]
    rfl

theorem ofValues?_single_iff :
    (∃ v, Holding.ofValues? values = some (.single v)) ↔
      ∃ v, kind v ∧ ∀ u, kind u → (u == v) = true := by
  constructor
  · rintro ⟨v, hsingle⟩
    rcases values with - | ⟨w, - | ⟨w', rest⟩⟩
    · nomatch hsingle
    · refine ⟨w, h.sound List.mem_cons_self, fun u hu => ?_⟩
      obtain ⟨w', hw', heq⟩ := h.complete hu (hself u hu)
      rw [List.mem_singleton.mp hw'] at heq
      exact BEq.symm heq
    · nomatch hsingle
  · rintro ⟨v, hv, hequal⟩
    obtain ⟨w, hw, -⟩ := h.complete hv (hself v hv)
    rcases values with - | ⟨u, - | ⟨u', rest⟩⟩
    · exact absurd hw List.not_mem_nil
    · exact ⟨u, rfl⟩
    · -- two of them would be equal to the one, and so to each other
      have hdifferent := List.rel_of_pairwise_cons h.distinct List.mem_cons_self
      have hfirst := hequal u (h.sound List.mem_cons_self)
      have hsecond := hequal u' (h.sound (List.mem_cons_of_mem u List.mem_cons_self))
      rw [BEq.trans hfirst (BEq.symm hsecond)] at hdifferent
      nomatch hdifferent

theorem ofValues?_multi_iff :
    (∃ vs, Holding.ofValues? values = some (.multi vs)) ↔
      ∃ u v, kind u ∧ kind v ∧ (u == v) = false := by
  constructor
  · rintro ⟨vs, hmulti⟩
    rcases values with - | ⟨u, - | ⟨v, rest⟩⟩
    · nomatch hmulti
    · nomatch hmulti
    · exact ⟨u, v, h.sound List.mem_cons_self, h.sound (List.mem_cons_of_mem u List.mem_cons_self),
        List.rel_of_pairwise_cons h.distinct List.mem_cons_self⟩
  · rintro ⟨u, v, hu, hv, hdifferent⟩
    obtain ⟨w, hw, heq⟩ := h.complete hu (hself u hu)
    obtain ⟨w', hw', heq'⟩ := h.complete hv (hself v hv)
    rcases values with - | ⟨x, - | ⟨y, rest⟩⟩
    · exact absurd hw List.not_mem_nil
    · rw [List.mem_singleton.mp hw] at heq
      rw [List.mem_singleton.mp hw'] at heq'
      rw [BEq.trans (BEq.symm heq) heq'] at hdifferent
      nomatch hdifferent
    · exact ⟨x :: y :: rest, rfl⟩

end Represents

end Credence
