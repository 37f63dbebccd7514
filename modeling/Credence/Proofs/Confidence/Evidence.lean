import Credence.Confidence.Basic
import Mathlib.Algebra.BigOperators.Group.List.Basic
import Mathlib.Algebra.Order.BigOperators.Group.List
import Mathlib.Algebra.Order.Field.Rat

/-!
# Evidence in exact arithmetic

In exact arithmetic it does not matter in which order rules are heard (`Evidence.ofList_perm`): what
they come to is a formula in two products, one over the rules that support and one over those that
oppose (`Evidence.level_ofList`).  Since strengths are held between zero and one, one more rule that
supports takes away doubt, and one that opposes can only scale the result down.

There is one jump.  Opposing rules alone give what they leave, which may be close to one; the first
rule that supports turns that into a factor of its own strength.  `Evidence.Heartens` names the
rules that cannot lower the result: those that support evidence with support, and those of no
strength that oppose.
-/

namespace Credence

variable {K : Type} [Field K]

namespace Evidence

/-! ## What evidence comes to -/

/-- Some rule has been heard. -/
def heard (e : Evidence K) : Bool := e.supported || e.opposed

/-- The number that evidence comes to if any rule has been heard. -/
def level (e : Evidence K) : K :=
  if e.supported then (1 - e.doubt) * e.scepticism else e.scepticism

theorem conclude_eq_known {e : Evidence K} {x : K} :
    e.conclude = .known x ↔ e.heard = true ∧ e.level = x := by
  unfold conclude heard level
  cases e.supported <;> cases e.opposed <;> simp

theorem conclude_eq_unknown {e : Evidence K} : e.conclude = .unknown ↔ e.heard = false := by
  unfold conclude heard
  cases e.supported <;> cases e.opposed <;> simp

end Evidence

variable [LinearOrder K]

section Clamp

variable [IsStrictOrderedRing K] (x : K)

theorem clamp_nonneg : 0 ≤ clamp x := by
  unfold clamp
  split_ifs with hneg hlarge
  · exact le_rfl
  · exact zero_le_one
  · exact not_lt.mp hneg

theorem clamp_le_one : clamp x ≤ 1 := by
  unfold clamp
  split_ifs with hneg hlarge
  · exact zero_le_one
  · exact le_rfl
  · exact not_lt.mp hlarge

theorem clamp_of_nonpos {x : K} (hx : x ≤ 0) : clamp x = 0 := by
  unfold clamp
  split_ifs with hneg hlarge
  · rfl
  · exact absurd (hlarge.trans_le hx) (not_lt.mpr zero_le_one)
  · exact hx.antisymm (not_lt.mp hneg)

end Clamp

namespace Evidence

/-! ## The order of the rules -/

theorem add_right_comm (e : Evidence K) (i j : K × Bool) :
    (e.add i.1 i.2).add j.1 j.2 = (e.add j.1 j.2).add i.1 i.2 := by
  obtain ⟨x, b⟩ := i
  obtain ⟨y, c⟩ := j
  cases b <;> cases c <;> simp [add, mul_right_comm]

theorem ofList_perm {items items' : List (K × Bool)} (h : items.Perm items') :
    ofList items = ofList items' :=
  h.foldl_eq' (fun i _ j _ e => add_right_comm e i j) none

/-- A rule that is put in anywhere might as well come last. -/
theorem ofList_insert (front back : List (K × Bool)) (i : K × Bool) :
    ofList (front ++ i :: back) = (ofList (front ++ back)).add i.1 i.2 := by
  have hlast : (front ++ i :: back).Perm (front ++ back ++ [i]) :=
    List.perm_middle.trans (List.perm_append_singleton i _).symm
  rw [ofList_perm hlast, ofList, List.foldl_concat]
  rfl

/-! ## The formula -/

/-- What the supporting or the opposing ones among some rules leave: the product of the complements
of their strengths. -/
def remainder (supporting : Bool) (items : List (K × Bool)) : K :=
  ((items.filter (·.2 = supporting)).map fun i => 1 - clamp i.1).prod

theorem foldl_add (items : List (K × Bool)) (e : Evidence K) :
    items.foldl (fun e i => e.add i.1 i.2) e =
      ⟨e.doubt * remainder true items, e.scepticism * remainder false items,
        e.supported || items.any (·.2), e.opposed || items.any (!·.2)⟩ := by
  induction items generalizing e with
  | nil => simp [remainder]
  | cons i rest ih =>
      obtain ⟨x, b⟩ := i
      rw [List.foldl_cons, ih]
      cases b <;> simp [add, remainder, mul_assoc]

/-- All that is kept of rules is two products, and which sides were heard. -/
theorem ofList_eq (items : List (K × Bool)) :
    ofList items =
      ⟨remainder true items, remainder false items, items.any (·.2), items.any (!·.2)⟩ := by
  rw [ofList, foldl_add]
  simp [none]

theorem supported_ofList (items : List (K × Bool)) :
    (ofList items).supported = items.any (·.2) := by
  rw [ofList_eq]

theorem heard_ofList (items : List (K × Bool)) : (ofList items).heard = true ↔ items ≠ [] := by
  rw [ofList_eq, heard]
  cases items with
  | nil => simp
  | cons i rest =>
      obtain ⟨x, b⟩ := i
      cases b <;> simp

/-- Without support there is no doubt to take away from one. -/
theorem level_ofList (items : List (K × Bool)) :
    (ofList items).level =
      (if items.any (·.2) then 1 - remainder true items else 1) * remainder false items := by
  rw [ofList_eq, level, ite_mul, one_mul]

theorem heard_foldl {e : Evidence K} (he : e.heard = true) (items : List (K × Bool)) :
    (items.foldl (fun e i => e.add i.1 i.2) e).heard = true := by
  refine List.foldlRecOn (motive := (heard · = true)) items _ he fun e _ i _ => ?_
  obtain ⟨x, b⟩ := i
  cases b <;> simp [add, heard]

/-! ## Rules that cannot lower the result -/

/-- A rule supports what has support already, or opposes with no strength. -/
def Heartens (e : Evidence K) (i : K × Bool) : Prop :=
  if i.2 then e.supported = true else i.1 ≤ 0

theorem Heartens.add {e : Evidence K} {i : K × Bool} (hi : e.Heartens i) (j : K × Bool) :
    (e.add j.1 j.2).Heartens i := by
  obtain ⟨x, b⟩ := i
  obtain ⟨y, c⟩ := j
  cases b with
  | false => exact hi
  | true =>
      have hsupported : e.supported = true := hi
      cases c <;> simp [Heartens, Evidence.add, hsupported]

variable [IsStrictOrderedRing K]

/-- Evidence that rules can have given. -/
structure Sound (e : Evidence K) : Prop where
  doubt_nonneg : 0 ≤ e.doubt
  scepticism_nonneg : 0 ≤ e.scepticism

theorem sound_none : Sound (none : Evidence K) where
  doubt_nonneg := zero_le_one
  scepticism_nonneg := zero_le_one

theorem Sound.add {e : Evidence K} (h : e.Sound) (x : K) (supporting : Bool) :
    (e.add x supporting).Sound := by
  have hrest : 0 ≤ 1 - clamp x := sub_nonneg.mpr (clamp_le_one x)
  cases supporting with
  | false => exact ⟨h.doubt_nonneg, mul_nonneg h.scepticism_nonneg hrest⟩
  | true => exact ⟨mul_nonneg h.doubt_nonneg hrest, h.scepticism_nonneg⟩

theorem sound_ofList (items : List (K × Bool)) : (ofList items).Sound :=
  List.foldlRecOn items _ sound_none fun _ h i _ => h.add i.1 i.2

/-! ## Bounds -/

theorem remainder_mem (supporting : Bool) (items : List (K × Bool)) :
    remainder supporting items ∈ Set.Icc 0 1 := by
  refine List.prod_induction (· ∈ Set.Icc 0 1)
    (fun x y hx hy => ⟨mul_nonneg hx.1 hy.1, mul_le_one₀ hx.2 hy.1 hy.2⟩)
    ⟨zero_le_one, le_rfl⟩ fun x hx => ?_
  obtain ⟨i, -, rfl⟩ := List.mem_map.mp hx
  exact ⟨sub_nonneg.mpr (clamp_le_one i.1), sub_le_self 1 (clamp_nonneg i.1)⟩

/-- What the supporting rules make of one. -/
theorem support_mem (items : List (K × Bool)) :
    (if items.any (·.2) then 1 - remainder true items else 1) ∈ Set.Icc 0 1 := by
  have hdoubt := remainder_mem true items
  split_ifs
  · exact ⟨sub_nonneg.mpr hdoubt.2, sub_le_self 1 hdoubt.1⟩
  · exact ⟨zero_le_one, le_rfl⟩

theorem level_ofList_nonneg (items : List (K × Bool)) : 0 ≤ (ofList items).level := by
  rw [level_ofList]
  exact mul_nonneg (support_mem items).1 (remainder_mem false items).1

/-- The rules that oppose leave no more than their product. -/
theorem level_ofList_le (items : List (K × Bool)) :
    (ofList items).level ≤ remainder false items := by
  rw [level_ofList]
  exact mul_le_of_le_one_left (remainder_mem false items).1 (support_mem items).2

/-! ## One rule more -/

/-- A rule that opposes scales the result down. -/
theorem level_add_le_level {e : Evidence K} (he : 0 ≤ e.level) (x : K) :
    (e.add x false).level ≤ e.level := by
  have hscaled : (e.add x false).level = e.level * (1 - clamp x) := by
    unfold level add
    cases e.supported <;> simp [mul_assoc]
  rw [hscaled]
  exact mul_le_of_le_one_right he (sub_le_self 1 (clamp_nonneg x))

/-- A rule that cannot lower the result. -/
theorem level_le_level_add {e : Evidence K} (he : e.Sound) {i : K × Bool} (hi : e.Heartens i) :
    e.level ≤ (e.add i.1 i.2).level := by
  obtain ⟨x, b⟩ := i
  cases b with
  | false =>
      have hx : clamp x = 0 := clamp_of_nonpos hi
      simp [add, level, hx]
  | true =>
      have hsupported : e.supported = true := hi
      have hdoubt : e.doubt * (1 - clamp x) ≤ e.doubt :=
        mul_le_of_le_one_right he.doubt_nonneg (sub_le_self 1 (clamp_nonneg x))
      simp only [add, level, hsupported, if_true]
      exact mul_le_mul_of_nonneg_right (sub_le_sub_left hdoubt 1) he.scepticism_nonneg

/-- Any number of rules more. -/
theorem level_le_level_foldl {e : Evidence K} (he : e.Sound) {items : List (K × Bool)}
    (hitems : ∀ i ∈ items, e.Heartens i) :
    e.level ≤ (items.foldl (fun e i => e.add i.1 i.2) e).level := by
  induction items generalizing e with
  | nil => exact le_rfl
  | cons i rest ih =>
      refine (level_le_level_add he (hitems i List.mem_cons_self)).trans (ih (he.add i.1 i.2) ?_)
      exact fun j hj => (hitems j (List.mem_cons_of_mem i hj)).add i

/-- What is known from some rules is known from more, and it is no lower if all that come are
heartening. -/
theorem conclude_append {items : List (K × Bool)} {x : K}
    (hx : (ofList items).conclude = .known x) (more : List (K × Bool)) :
    ∃ y, (ofList (items ++ more)).conclude = .known y ∧
      ((∀ i ∈ more, (ofList items).Heartens i) → x ≤ y) := by
  obtain ⟨hheard, rfl⟩ := conclude_eq_known.mp hx
  have happend : ofList (items ++ more) =
      more.foldl (fun e i => e.add i.1 i.2) (ofList items) := List.foldl_append
  rw [happend]
  exact ⟨_, conclude_eq_known.mpr ⟨heard_foldl hheard more, rfl⟩,
    level_le_level_foldl (sound_ofList items)⟩

/-- Nothing is known exactly if there are no rules.  Otherwise rules come to a formula in what
either side leaves, between zero and what the opposing side leaves, in whatever order they are heard.
One more rule that opposes never raises it, and one that supports never lowers it if there is
support already. -/
theorem conclude_ofList (items : List (K × Bool)) :
    ((ofList items).conclude = .unknown ↔ items = []) ∧
    (∀ items', items'.Perm items → (ofList items').conclude = (ofList items).conclude) ∧
    (items ≠ [] →
      let opposition := remainder false items
      let c := (if items.any (·.2) then 1 - remainder true items else 1) * opposition
      (ofList items).conclude = .known c ∧ 0 ≤ c ∧ c ≤ 1 ∧ c ≤ opposition ∧
      ∀ front back, items = front ++ back → ∀ x,
        (∃ d, (ofList (front ++ (x, false) :: back)).conclude = .known d ∧ d ≤ c) ∧
        (items.any (·.2) = true →
          ∃ d, (ofList (front ++ (x, true) :: back)).conclude = .known d ∧ c ≤ d)) := by
  refine ⟨?_, fun items' h => congrArg conclude (ofList_perm h), fun hne => ?_⟩
  · rw [conclude_eq_unknown, ← Bool.not_eq_true, heard_ofList, not_ne_iff]
  · intro opposition c
    have hlevel : (ofList items).level = c := level_ofList items
    have hnonneg : 0 ≤ c := hlevel ▸ level_ofList_nonneg items
    have hle : c ≤ opposition := hlevel ▸ level_ofList_le items
    have hheard : (ofList items).heard = true := (heard_ofList items).mpr hne
    refine ⟨conclude_eq_known.mpr ⟨hheard, hlevel⟩, hnonneg,
      hle.trans (remainder_mem false items).2, hle, ?_⟩
    rintro front back rfl x
    have hlonger (i : K × Bool) : (ofList (front ++ i :: back)).conclude =
        .known ((ofList (front ++ back)).add i.1 i.2).level := by
      refine conclude_eq_known.mpr ⟨(heard_ofList _).mpr (by simp), ?_⟩
      rw [ofList_insert]
    refine ⟨⟨_, hlonger (x, false), ?_⟩, fun hsupported => ⟨_, hlonger (x, true), ?_⟩⟩
    · rw [← hlevel]
      exact level_add_le_level (hlevel ▸ hnonneg) x
    · have hheartens : (ofList (front ++ back)).Heartens (x, true) :=
        (supported_ofList _).trans hsupported
      rw [← hlevel]
      exact level_le_level_add (sound_ofList _) hheartens

/-- One rule supports halfway, one not at all, and one opposes.  A further rule comes in between. -/
theorem conclude_ofList_halfway :
    let front : List (ℚ × Bool) := [(1 / 2, true)]
    let back : List (ℚ × Bool) := [(1 / 4, false), (-3, true)]
    front ++ back ≠ [] ∧ (front ++ back).any (·.2) = true ∧
      (ofList (front ++ back)).conclude = .known (3 / 8) ∧
      (∃ d, (ofList (front ++ (3 / 4, false) :: back)).conclude = .known d ∧ d ≤ 3 / 8) ∧
      ∃ d, (ofList (front ++ (3, true) :: back)).conclude = .known d ∧ 3 / 8 ≤ d := by
  intro front back
  have hne : front ++ back ≠ [] := List.cons_ne_nil _ _
  have hc : (if (front ++ back).any (·.2) then 1 - remainder true (front ++ back) else 1) *
      remainder false (front ++ back) = 3 / 8 := by
    decide +kernel
  obtain ⟨hknown, -, -, -, hinsert⟩ := (conclude_ofList (front ++ back)).2.2 hne
  rw [hc] at hknown hinsert
  exact ⟨hne, rfl, hknown, (hinsert front back rfl (3 / 4)).1, (hinsert front back rfl 3).2 rfl⟩

end Evidence

end Credence
