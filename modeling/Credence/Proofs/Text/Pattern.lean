import Credence.Text.Pattern

/-!
# What patterns take

`Pattern.ways` tries the ways to fit a pattern one after another, and a repetition is cut off after
as many rounds as the text has characters.  None of this shows in the set of ways that come out.
`Fits` says what a text looks like without an order of trying, and the ways to take a fitting text
off a text are exactly the ways to cut the text behind a part that fits (`mem_ways_iff`).
-/

namespace Credence.Text.Pattern

variable {p q : Pattern} {kind : Char → Bool} {text taken rest : List Char}

/-- A text looks as a pattern says. -/
inductive Fits : Pattern → List Char → Prop where
  | one {kind : Char → Bool} {c : Char} (hc : kind c = true) : Fits (.one kind) [c]
  | seq {p q : Pattern} {text text' : List Char} (hp : Fits p text) (hq : Fits q text') :
      Fits (.seq p q) (text ++ text')
  | stop {p : Pattern} : Fits (.many p) []
  | round {p : Pattern} {text text' : List Char} (hp : Fits p text) (hmore : Fits (.many p) text') :
      Fits (.many p) (text ++ text')

theorem fits_one : (one kind).Fits text ↔ ∃ c, kind c = true ∧ text = [c] := by
  constructor
  · rintro ⟨hc⟩
    exact ⟨_, hc, rfl⟩
  · rintro ⟨c, hc, rfl⟩
    exact .one hc

theorem fits_char {c : Char} : (char c).Fits text ↔ text = [c] := by
  simp [char, fits_one]

theorem fits_seq : (seq p q).Fits text ↔
    ∃ first second, text = first ++ second ∧ p.Fits first ∧ q.Fits second := by
  constructor
  · rintro ⟨⟩
    exact ⟨_, _, rfl, ‹_›, ‹_›⟩
  · rintro ⟨first, second, rfl, hp, hq⟩
    exact .seq hp hq

/-- A repetition ends, or goes on with a round that is not empty. -/
theorem fits_many : (many p).Fits text ↔ text = [] ∨
    ∃ first more, first ≠ [] ∧ text = first ++ more ∧ p.Fits first ∧ (many p).Fits more := by
  constructor
  · intro h
    generalize hpattern : many p = pattern at h
    induction h with
    | one _ | seq _ _ _ _ => cases hpattern
    | stop => exact .inl rfl
    | @round _ text text' hp hmore _ ih =>
        cases hpattern
        by_cases hempty : text = []
        · subst hempty
          exact ih rfl
        · exact .inr ⟨text, text', hempty, rfl, hp, hmore⟩
  · rintro (rfl | ⟨first, more, -, rfl, hp, hmore⟩)
    · exact .stop
    · exact .round hp hmore

/-- What fits a repetition is a row of rounds. -/
theorem fits_many_iff_flatMap {α : Type} {spelling : α → List Char} {Fitting : α → Prop}
    (hround : ∀ text, p.Fits text ↔ ∃ a, Fitting a ∧ text = spelling a) :
    (many p).Fits text ↔
      ∃ items : List α, (∀ a ∈ items, Fitting a) ∧ text = items.flatMap spelling := by
  constructor
  · intro h
    generalize hpattern : many p = pattern at h
    induction h with
    | one _ | seq _ _ _ _ => cases hpattern
    | stop => exact ⟨[], fun _ h => absurd h List.not_mem_nil, rfl⟩
    | round hp _ _ ih =>
        cases hpattern
        obtain ⟨a, ha, rfl⟩ := (hround _).mp hp
        obtain ⟨items, hitems, rfl⟩ := ih rfl
        exact ⟨a :: items, List.forall_mem_cons.mpr ⟨ha, hitems⟩, rfl⟩
  · rintro ⟨items, hitems, rfl⟩
    induction items with
    | nil => exact .stop
    | cons a items ih =>
        rw [List.forall_mem_cons] at hitems
        rw [List.flatMap_cons]
        exact .round ((hround _).mpr ⟨a, hitems.1, rfl⟩) (ih hitems.2)

theorem fits_many_one : (many (one kind)).Fits text ↔ ∀ c ∈ text, kind c = true := by
  rw [fits_many_iff_flatMap fun _ => fits_one]
  simp only [List.flatMap_singleton', exists_eq_right']

theorem fits_atLeast_one {n : Nat} :
    (atLeast n (one kind)).Fits text ↔ n ≤ text.length ∧ ∀ c ∈ text, kind c = true := by
  induction n generalizing text with
  | zero => simp [atLeast, fits_many_one]
  | succ n ih =>
      rw [atLeast, fits_seq]
      constructor
      · rintro ⟨first, second, rfl, hfirst, hsecond⟩
        obtain ⟨c, hc, rfl⟩ := fits_one.mp hfirst
        obtain ⟨hlength, hall⟩ := ih.mp hsecond
        exact ⟨Nat.succ_le_succ hlength, List.forall_mem_cons.mpr ⟨hc, hall⟩⟩
      · rintro ⟨hlength, hall⟩
        cases text with
        | nil => nomatch hlength
        | cons c rest =>
            rw [List.forall_mem_cons] at hall
            exact ⟨[c], rest, rfl, .one hall.1, ih.mpr ⟨Nat.le_of_succ_le_succ hlength, hall.2⟩⟩

/-! ## The ways to fit -/

theorem mem_map_append {first : List Char} {ways : List (List Char × List Char)} :
    (taken, rest) ∈ ways.map (fun (more, rest) => (first ++ more, rest)) ↔
      ∃ more, taken = first ++ more ∧ (more, rest) ∈ ways := by
  rw [List.mem_map]
  constructor
  · rintro ⟨⟨more, left⟩, hmore, heq⟩
    obtain ⟨rfl, rfl⟩ := Prod.mk.inj heq
    exact ⟨more, rfl, hmore⟩
  · rintro ⟨more, rfl, hmore⟩
    exact ⟨(more, rest), hmore, rfl⟩

/-- As many rounds as there are characters are enough. -/
theorem mem_rounds_iff
    (hways : ∀ {text taken rest}, (taken, rest) ∈ p.ways text ↔ text = taken ++ rest ∧ p.Fits taken)
    {n : Nat} (hlength : text.length ≤ n) :
    (taken, rest) ∈ rounds p.ways n text ↔ text = taken ++ rest ∧ (many p).Fits taken := by
  induction n generalizing text taken with
  | zero =>
      obtain rfl := List.length_eq_zero_iff.mp (Nat.le_zero.mp hlength)
      simp only [rounds, List.mem_singleton, Prod.mk.injEq]
      constructor
      · rintro ⟨rfl, rfl⟩
        exact ⟨rfl, .stop⟩
      · rintro ⟨htext, -⟩
        exact List.append_eq_nil_iff.mp htext.symm
  | succ n ih =>
      rw [rounds, List.mem_append, List.mem_flatMap, List.mem_singleton, Prod.mk.injEq, fits_many]
      constructor
      · rintro (⟨⟨first, behind⟩, hfirst, hmore⟩ | ⟨rfl, rfl⟩)
        · obtain ⟨rfl, hp⟩ := hways.mp hfirst
          dsimp only at hmore
          split at hmore
          · nomatch hmore
          · rename_i hne
            have hpositive := List.length_pos_iff.mpr hne
            rw [List.length_append] at hlength
            have hbehind : behind.length ≤ n := by omega
            obtain ⟨more, rfl, hwhole⟩ := mem_map_append.mp hmore
            obtain ⟨rfl, hmany⟩ := (ih hbehind).mp hwhole
            exact ⟨(List.append_assoc _ _ _).symm, .inr ⟨first, more, hne, rfl, hp, hmany⟩⟩
        · exact ⟨rfl, .inl rfl⟩
      · rintro ⟨rfl, rfl | ⟨first, more, hne, rfl, hp, hmany⟩⟩
        · exact .inr ⟨rfl, rfl⟩
        · have hpositive := List.length_pos_iff.mpr hne
          rw [List.append_assoc, List.length_append] at hlength
          refine .inl ⟨(first, more ++ rest), hways.mpr ⟨List.append_assoc _ _ _, hp⟩, ?_⟩
          dsimp only
          rw [if_neg hne]
          exact mem_map_append.mpr ⟨more, rfl, (ih (by omega)).mpr ⟨rfl, hmany⟩⟩

/-- The ways to fit a pattern are the ways to cut the text behind a part that fits. -/
theorem mem_ways_iff :
    (taken, rest) ∈ p.ways text ↔ text = taken ++ rest ∧ p.Fits taken := by
  induction p generalizing text taken rest with
  | one kind =>
      rw [fits_one]
      cases text with
      | nil =>
          constructor
          · intro h
            nomatch h
          · rintro ⟨htext, c, -, rfl⟩
            nomatch htext
      | cons c text =>
          rw [ways]
          constructor
          · intro h
            split at h
            · obtain ⟨rfl, rfl⟩ := Prod.mk.inj (List.mem_singleton.mp h)
              exact ⟨rfl, c, by assumption, rfl⟩
            · nomatch h
          · rintro ⟨htext, d, hd, rfl⟩
            obtain ⟨rfl, rfl⟩ := List.cons.inj htext
            rw [if_pos hd]
            exact List.mem_singleton_self _
  | seq p q ihp ihq =>
      rw [ways, fits_seq, List.mem_flatMap]
      constructor
      · rintro ⟨⟨first, behind⟩, hfirst, hwhole⟩
        obtain ⟨second, rfl, hsecond⟩ := mem_map_append.mp hwhole
        obtain ⟨rfl, hp⟩ := ihp.mp hfirst
        obtain ⟨rfl, hq⟩ := ihq.mp hsecond
        exact ⟨(List.append_assoc _ _ _).symm, first, second, rfl, hp, hq⟩
      · rintro ⟨rfl, first, second, rfl, hp, hq⟩
        refine ⟨(first, second ++ rest), ihp.mpr ⟨List.append_assoc _ _ _, hp⟩, ?_⟩
        exact mem_map_append.mpr ⟨second, rfl, ihq.mpr ⟨rfl, hq⟩⟩
  | many p ih => exact mem_rounds_iff ih (Nat.le_refl _)

end Credence.Text.Pattern
