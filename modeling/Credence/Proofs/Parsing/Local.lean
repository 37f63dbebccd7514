import Credence.Proofs.Parsing.Steady

/-!
# Parsers that do not look past what closes

An argument ends at a comma or a closing parenthesis.  What a parser makes of an argument does not
depend on what stands from there on: if it succeeds before the end, then it succeeds with the same
value before any other end (`Carries`), and a parser behind which another alternative may be tried
refuses before one end if it refuses before another (`Local`).

A success may reach into the end, as that of a parser of parentheses does, and then nothing is said
about it.  Only where a refusal may come later does it matter that it does not (`Confined`).
-/

namespace Credence.Parser

open Text (skipGap)

variable {ε α β ω : Type} {p q : Parser ε α} {f : α → Parser ε β} {test : Char → Bool}
  {s r t t' v w : List Char} {a : α} {as : List α} {c : Char}

/-! ## Ends -/

/-- Nothing, or a text that begins with what ends an argument. -/
def Closes (t : List Char) : Prop := ∀ c ∈ t.head?, c = ',' ∨ c = ')'

theorem closes_nil : Closes [] := by simp [Closes]

theorem closes_comma (s : List Char) : Closes (',' :: s) := by simp [Closes]

theorem closes_closing (s : List Char) : Closes (')' :: s) := by simp [Closes]

/-- A character that ends no argument. -/
def Open (c : Char) : Prop := c ≠ ',' ∧ c ≠ ')'

instance (c : Char) : Decidable (Open c) := inferInstanceAs (Decidable (_ ∧ _))

theorem open_of_test (hcomma : test ',' = false) (hclosing : test ')' = false)
    (hc : test c = true) : Open c := by
  refine ⟨?_, ?_⟩
  · rintro rfl
    rw [hcomma] at hc
    cases hc
  · rintro rfl
    rw [hclosing] at hc
    cases hc

theorem Closes.not_open (h : Closes t) (hc : c ∈ t.head?) : ¬ Open c := by
  rintro ⟨hcomma, hclosing⟩
  obtain rfl | rfl := h c hc
  · exact hcomma rfl
  · exact hclosing rfl

/-- What stands next before an end, if it is no end itself. -/
theorem head?_append_closes (ht : Closes t) (hc : Open c) (h : c ∈ (w ++ t).head?) :
    c ∈ (w ++ t').head? := by
  cases w with
  | nil => exact absurd hc (ht.not_open h)
  | cons d w => exact h

/-- What ends no argument is taken from before the end. -/
theorem exists_eq_append_of_open {cs : List Char} (hcs : ∀ c ∈ cs, Open c) (ht : Closes t)
    (h : w ++ t = cs ++ r) : ∃ v, r = v ++ t := by
  induction cs generalizing w with
  | nil => exact ⟨w, h.symm⟩
  | cons c cs ih =>
      obtain ⟨hc, hcs⟩ := List.forall_mem_cons.mp hcs
      cases w with
      | nil => exact absurd hc (ht.not_open (by rw [← List.nil_append t, h]; rfl))
      | cons d w => exact ih hcs (List.cons.inj h).2

/-- What is left over before an end, if no less than the end is left. -/
theorem exists_eq_append_of_suffix (hr : r <:+ w ++ t) (hle : t.length ≤ r.length) :
    ∃ v, r = v ++ t := by
  obtain ⟨v, hv⟩ := List.suffix_of_suffix_length_le (List.suffix_append w t) hr hle
  exact ⟨v, hv.symm⟩

theorem skipGap_append_closes (ht : Closes t) (w : List Char) :
    skipGap (w ++ t) = skipGap w ++ t := by
  cases hw : skipGap w with
  | nil =>
      rw [Text.skipGap_append (Text.skipGap_eq_nil_iff.mp hw)]
      cases t with
      | nil => rfl
      | cons c t =>
          refine Text.skipGap_cons ?_ t
          obtain rfl | rfl := ht c rfl <;> decide
  | cons c rest => exact Text.skipGap_append_of_cons hw t

theorem skipGap_suffix (s : List Char) : skipGap s <:+ s := List.dropWhile_suffix _

/-! ## What parsers do before an end -/

/-- A parser succeeds before an end as it does before any other. -/
structure Carries (p : Parser ε α) : Prop where
  suffix : ∀ {s a r}, p s = .success a r → r <:+ s
  success : ∀ {w v t t' a}, Closes t → Closes t' → p (w ++ t) = .success a (v ++ t) →
    p (w ++ t') = .success a (v ++ t')

/-- And it refuses before an end as it does before any other. -/
structure Local (p : Parser ε α) : Prop extends Carries p where
  refuses : ∀ {w t t'}, Closes t → Closes t' → p.Refuses (w ++ t) → p.Refuses (w ++ t')

/-- And it never takes what ends an argument. -/
structure Confined (p : Parser ε α) : Prop extends Local p where
  inside : ∀ {w t a r}, Closes t → p (w ++ t) = .success a r → ∃ v, r = v ++ t

/-- A parser that never refuses. -/
def Firm (p : Parser ε α) : Prop := ∀ s, ¬ p.Refuses s

theorem Carries.local (hp : Carries p) (hfirm : Firm p) : Local p where
  toCarries := hp
  refuses _ _ h := absurd h (hfirm _)

/-- A parser that never fails refuses what it does not take. -/
theorem Gentle.confined (hgentle : Gentle p) (hp : Carries p)
    (hinside : ∀ {w t a r}, Closes t → p (w ++ t) = .success a r → ∃ v, r = v ++ t) :
    Confined p where
  toCarries := hp
  inside := hinside
  refuses {w t t'} ht ht' h := by
    rw [hgentle.refuses_iff] at h ⊢
    intro a r hr
    obtain ⟨v, rfl⟩ := hinside ht' hr
    exact h a (v ++ t) (hp.success ht' ht hr)

/-! ## One after the other -/

theorem Carries.bind (hp : Carries p) (hf : ∀ a, Carries (f a)) : Carries (p >>= f) where
  suffix h := by
    obtain ⟨a, rest, hrest, h⟩ := bind_eq_success.mp h
    exact ((hf a).suffix h).trans (hp.suffix hrest)
  success {w v t t' b} ht ht' h := by
    obtain ⟨a, rest, hrest, h⟩ := bind_eq_success.mp h
    have hle := ((hf a).suffix h).length_le
    rw [List.length_append] at hle
    obtain ⟨u, rfl⟩ := exists_eq_append_of_suffix (hp.suffix hrest) (by omega)
    exact bind_eq_success.mpr ⟨a, u ++ t', hp.success ht ht' hrest, (hf a).success ht ht' h⟩

/-- What may refuse later stands behind what takes no end. -/
theorem Confined.bind_local (hp : Confined p) (hf : ∀ a, Local (f a)) : Local (p >>= f) where
  toCarries := hp.toCarries.bind fun a => (hf a).toCarries
  refuses {w t t'} ht ht' h := by
    rw [refuses_bind] at h ⊢
    obtain h | ⟨a, rest, hrest, h⟩ := h
    · exact .inl (hp.refuses ht ht' h)
    · obtain ⟨u, rfl⟩ := hp.inside ht hrest
      exact .inr ⟨a, u ++ t', hp.success ht ht' hrest, (hf a).refuses ht ht' h⟩

/-- Or nothing refuses later. -/
theorem Local.bind_firm (hp : Local p) (hf : ∀ a, Carries (f a)) (hfirm : ∀ a, Firm (f a)) :
    Local (p >>= f) where
  toCarries := hp.toCarries.bind hf
  refuses {w t t'} ht ht' h := by
    rw [refuses_bind] at h ⊢
    obtain h | ⟨a, rest, -, h⟩ := h
    · exact .inl (hp.refuses ht ht' h)
    · exact absurd h (hfirm a rest)

theorem Confined.bind (hp : Confined p) (hf : ∀ a, Confined (f a)) : Confined (p >>= f) where
  toLocal := hp.bind_local fun a => (hf a).toLocal
  inside {w t b r} ht h := by
    obtain ⟨a, rest, hrest, h⟩ := bind_eq_success.mp h
    obtain ⟨u, rfl⟩ := hp.inside ht hrest
    exact (hf a).inside ht h

theorem Firm.bind (hp : Firm p) (hf : ∀ a, Firm (f a)) : Firm (p >>= f) := by
  intro s h
  obtain h | ⟨a, rest, -, h⟩ := refuses_bind.mp h
  · exact hp s h
  · exact hf a rest h

theorem confined_pure (a : α) : Confined (Pure.pure a : Parser ε α) where
  suffix h := by
    obtain ⟨-, rfl⟩ := pure_eq_success.mp h
    exact List.suffix_refl _
  success {w v t t' a'} _ _ h := by
    obtain ⟨rfl, hw⟩ := pure_eq_success.mp h
    obtain rfl := List.append_cancel_right hw
    exact pure_eq_success.mpr ⟨rfl, rfl⟩
  refuses _ _ h := absurd h not_refuses_pure
  inside {w t a' r} _ h := by
    obtain ⟨-, rfl⟩ := pure_eq_success.mp h
    exact ⟨w, rfl⟩

theorem carries_pure (a : α) : Carries (Pure.pure a : Parser ε α) := (confined_pure a).toCarries

theorem firm_pure (a : α) : Firm (Pure.pure a : Parser ε α) := fun _ => not_refuses_pure

theorem confined_refuse : Confined (refuse : Parser ε α) where
  suffix h := absurd h not_refuse_eq_success
  success _ _ h := absurd h not_refuse_eq_success
  refuses _ _ _ := refuses_refuse
  inside _ h := absurd h not_refuse_eq_success

/-! ## Single characters -/

theorem carries_charWhere (test : Char → Bool) : Carries (charWhere test : Parser ε Char) where
  suffix {s c r} h := by
    obtain ⟨rfl, -⟩ := charWhere_eq_success.mp h
    exact List.suffix_cons c r
  success {w v t t' c} _ _ h := by
    obtain ⟨hw, hc⟩ := charWhere_eq_success.mp h
    obtain rfl := List.append_cancel_right (show w ++ t = (c :: v) ++ t from hw)
    exact charWhere_eq_success.mpr ⟨rfl, hc⟩

theorem carries_char (c : Char) : Carries (char c : Parser ε Char) := carries_charWhere _

theorem confined_charWhere (htest : ∀ c, test c = true → Open c) :
    Confined (charWhere test : Parser ε Char) :=
  gentle_charWhere.confined (carries_charWhere test) fun {w t c r} ht h => by
    obtain ⟨hs, hc⟩ := charWhere_eq_success.mp h
    exact exists_eq_append_of_open (by simpa using htest c hc) ht (show w ++ t = [c] ++ r from hs)

theorem confined_char (hc : Open c) : Confined (char c : Parser ε Char) :=
  confined_charWhere fun d hd => by simpa [of_decide_eq_true hd] using hc

theorem carries_exactly (word : List Char) : Carries (exactly word : Parser ε Unit) where
  suffix h := by
    obtain rfl := exactly_eq_success.mp h
    exact List.suffix_append _ _
  success {w v t t' _} _ _ h := by
    have hw := exactly_eq_success.mp h
    rw [← List.append_assoc] at hw
    rw [List.append_cancel_right hw, exactly_eq_success, List.append_assoc]

theorem confined_exactly {word : List Char} (hword : ∀ c ∈ word, Open c) :
    Confined (exactly word : Parser ε Unit) :=
  gentle_exactly.confined (carries_exactly word) fun ht h =>
    exists_eq_append_of_open hword ht (exactly_eq_success.mp h)

theorem carries_spanWhere (htest : ∀ c, test c = true → Open c) :
    Carries (spanWhere test : Parser ε (List Char)) where
  suffix h := by
    obtain ⟨rfl, -⟩ := spanWhere_eq_success.mp h
    exact List.suffix_append _ _
  success {w v t t' cs} _ ht' h := by
    obtain ⟨hw, hcs, hr⟩ := spanWhere_eq_success.mp h
    rw [← List.append_assoc] at hw
    obtain rfl := List.append_cancel_right hw
    refine spanWhere_eq_success.mpr ⟨List.append_assoc _ _ _, hcs, fun c hc => ?_⟩
    cases htrue : test c with
    | false => rfl
    | true => exact htrue.symm.trans (hr c (head?_append_closes ht' (htest c htrue) hc))

theorem confined_spanWhere (htest : ∀ c, test c = true → Open c) :
    Confined (spanWhere test : Parser ε (List Char)) :=
  gentle_spanWhere.confined (carries_spanWhere htest) fun ht h => by
    obtain ⟨hw, hcs, -⟩ := spanWhere_eq_success.mp h
    exact exists_eq_append_of_open (fun c hc => htest c (hcs c hc)) ht hw

theorem gentle_someWhere : Gentle (someWhere test : Parser ε (List Char)) := by
  intro s place reason
  unfold someWhere
  cases s.takeWhile test <;> simp

theorem confined_someWhere (htest : ∀ c, test c = true → Open c) :
    Confined (someWhere test : Parser ε (List Char)) := by
  have hspan {s r cs : List Char}
      (h : (someWhere test : Parser ε (List Char)) s = .success cs r) :
      cs ≠ [] ∧ (spanWhere test : Parser ε (List Char)) s = .success cs r := by
    obtain ⟨hne, h⟩ := someWhere_eq_success.mp h
    exact ⟨hne, spanWhere_eq_success.mpr h⟩
  have hcarries : Carries (someWhere test : Parser ε (List Char)) := by
    refine ⟨fun h => (carries_spanWhere (ε := ε) htest).suffix (hspan h).2, ?_⟩
    intro w v t t' cs ht ht' h
    obtain ⟨hne, h⟩ := hspan h
    have h' := (carries_spanWhere htest).success ht ht' h
    exact someWhere_eq_success.mpr ⟨hne, spanWhere_eq_success.mp h'⟩
  exact gentle_someWhere.confined hcarries fun ht h =>
    (confined_spanWhere htest).inside ht (hspan h).2

/-! ## Around a parser -/

theorem Carries.spaced (hp : Carries p) : Carries (spaced p) where
  suffix {s a r} h := by
    obtain ⟨rest, hrest, rfl⟩ := spaced_eq_success.mp h
    exact ((skipGap_suffix rest).trans (hp.suffix hrest)).trans (skipGap_suffix s)
  success {w v t t' a} ht ht' h := by
    obtain ⟨rest, hrest, hr⟩ := spaced_eq_success.mp h
    rw [skipGap_append_closes ht] at hrest
    have hle := (skipGap_suffix rest).length_le
    rw [hr, List.length_append] at hle
    obtain ⟨u, rfl⟩ := exists_eq_append_of_suffix (hp.suffix hrest) (by omega)
    rw [skipGap_append_closes ht] at hr
    obtain rfl := List.append_cancel_right hr
    refine spaced_eq_success.mpr ⟨u ++ t', ?_, skipGap_append_closes ht' u⟩
    rw [skipGap_append_closes ht']
    exact hp.success ht ht' hrest

theorem Local.spaced (hp : Local p) : Local (spaced p) where
  toCarries := hp.toCarries.spaced
  refuses {w t t'} ht ht' h := by
    rw [refuses_spaced, skipGap_append_closes ht] at h
    rw [refuses_spaced, skipGap_append_closes ht']
    exact hp.refuses ht ht' h

theorem Confined.spaced (hp : Confined p) : Confined (spaced p) where
  toLocal := hp.toLocal.spaced
  inside {w t a r} ht h := by
    obtain ⟨rest, hrest, rfl⟩ := spaced_eq_success.mp h
    rw [skipGap_append_closes ht] at hrest
    obtain ⟨v, rfl⟩ := hp.inside ht hrest
    exact ⟨skipGap v, skipGap_append_closes ht v⟩

theorem Carries.committed (hp : Carries p) : Carries (committed p) where
  suffix h := hp.suffix (committed_eq_success.mp h)
  success ht ht' h := committed_eq_success.mpr (hp.success ht ht' (committed_eq_success.mp h))

theorem firm_committed (p : Parser ε α) : Firm (committed p) := fun _ => not_refuses_committed

theorem Carries.expecting (reason : ε) (hp : Carries p) : Carries (expecting reason p) where
  suffix h := hp.suffix (expecting_eq_success.mp h)
  success ht ht' h := expecting_eq_success.mpr (hp.success ht ht' (expecting_eq_success.mp h))

theorem firm_expecting (reason : ε) (p : Parser ε α) : Firm (expecting reason p) :=
  fun _ => not_refuses_expecting

theorem Confined.expecting (reason : ε) (hp : Confined p) : Confined (expecting reason p) where
  toLocal := (hp.toCarries.expecting reason).local (firm_expecting reason p)
  inside ht h := hp.inside ht (expecting_eq_success.mp h)

theorem Carries.withSource (hp : Carries p) : Carries (withSource p) where
  suffix h := hp.suffix (withSource_eq_success.mp h).1
  success {w v t t' x} ht ht' h := by
    obtain ⟨hx, hsource⟩ := withSource_eq_success.mp h
    have hle := (hp.suffix hx).length_le
    simp only [List.length_append] at hle
    refine withSource_eq_success.mpr ⟨hp.success ht ht' hx, ?_⟩
    rw [hsource]
    simp only [List.length_append]
    rw [List.take_append_of_le_length (by omega), List.take_append_of_le_length (by omega)]
    congr 1
    omega

/-! ## Alternatives -/

/-- Whether a parser would succeed before an end. -/
theorem Confined.accepts_eq (hp : Confined p) (ht : Closes t) (ht' : Closes t') :
    p.accepts (w ++ t) = p.accepts (w ++ t') := by
  rw [Bool.eq_iff_iff, accepts_eq_true, accepts_eq_true]
  constructor
  · rintro ⟨a, r, h⟩
    obtain ⟨v, rfl⟩ := hp.inside ht h
    exact ⟨a, v ++ t', hp.success ht ht' h⟩
  · rintro ⟨a, r, h⟩
    obtain ⟨v, rfl⟩ := hp.inside ht' h
    exact ⟨a, v ++ t, hp.success ht' ht h⟩

theorem Confined.notAhead (hp : Confined p) : Confined (notAhead p) where
  suffix h := by
    obtain ⟨rfl, -⟩ := notAhead_eq_success.mp h
    exact List.suffix_refl _
  success {w v t t' _} ht ht' h := by
    obtain ⟨hw, haccepts⟩ := notAhead_eq_success.mp h
    obtain rfl := List.append_cancel_right hw
    exact notAhead_eq_success.mpr ⟨rfl, (hp.accepts_eq ht' ht).trans haccepts⟩
  refuses {w t t'} ht ht' h := by
    rw [refuses_notAhead] at h ⊢
    exact (hp.accepts_eq ht' ht).trans h
  inside {w t _ r} _ h := by
    obtain ⟨rfl, -⟩ := notAhead_eq_success.mp h
    exact ⟨w, rfl⟩

theorem Local.optional? (hp : Local p) : Carries (optional? p) where
  suffix h := by
    obtain ⟨a, -, h⟩ | ⟨-, rfl, -⟩ := optional?_eq_success.mp h
    · exact hp.suffix h
    · exact List.suffix_refl _
  success {w v t t' o} ht ht' h := by
    obtain ⟨a, rfl, ha⟩ | ⟨rfl, hw, hrefuses⟩ := optional?_eq_success.mp h
    · exact optional?_eq_success.mpr (.inl ⟨a, rfl, hp.success ht ht' ha⟩)
    · obtain rfl := List.append_cancel_right hw
      exact optional?_eq_success.mpr (.inr ⟨rfl, rfl, hp.refuses ht ht' hrefuses⟩)

theorem firm_optional? (p : Parser ε α) : Firm (optional? p) := fun _ => not_refuses_optional?

theorem Confined.optional? (hp : Confined p) : Confined (optional? p) where
  toLocal := hp.toLocal.optional?.local (firm_optional? p)
  inside {w t o r} ht h := by
    obtain ⟨a, -, h⟩ | ⟨-, rfl, -⟩ := optional?_eq_success.mp h
    · exact hp.inside ht h
    · exact ⟨w, rfl⟩

theorem Local.orElse (hp : Local p) (hq : Local q) : Local (orElse p q) where
  suffix h := by
    obtain h | ⟨-, h⟩ := orElse_eq_success.mp h
    · exact hp.suffix h
    · exact hq.suffix h
  success ht ht' h := by
    obtain h | ⟨hrefuses, h⟩ := orElse_eq_success.mp h
    · exact orElse_eq_success.mpr (.inl (hp.success ht ht' h))
    · exact orElse_eq_success.mpr (.inr ⟨hp.refuses ht ht' hrefuses, hq.success ht ht' h⟩)
  refuses ht ht' h := by
    obtain ⟨h, h'⟩ := refuses_orElse.mp h
    exact refuses_orElse.mpr ⟨hp.refuses ht ht' h, hq.refuses ht ht' h'⟩

theorem Confined.orElse (hp : Confined p) (hq : Confined q) : Confined (orElse p q) where
  toLocal := hp.toLocal.orElse hq.toLocal
  inside ht h := by
    obtain h | ⟨-, h⟩ := orElse_eq_success.mp h
    · exact hp.inside ht h
    · exact hq.inside ht h

theorem local_firstOf {ps : List (Parser ε α)} (hps : ∀ p ∈ ps, Local p) : Local (firstOf ps) := by
  induction ps with
  | nil => exact confined_refuse.toLocal
  | cons p ps ih =>
      obtain ⟨hp, hps⟩ := List.forall_mem_cons.mp hps
      cases ps with
      | nil => exact hp
      | cons q ps => exact hp.orElse (ih hps)

theorem Confined.ifAhead {yes no : Parser ε β} (hp : Confined p) (hyes : Local yes)
    (hno : Local no) : Local (ifAhead p yes no) where
  suffix h := by
    obtain ⟨-, h⟩ | ⟨-, h⟩ := ifAhead_eq_success.mp h
    · exact hyes.suffix h
    · exact hno.suffix h
  success {w v t t' b} ht ht' h := by
    rw [ifAhead_eq_success, hp.accepts_eq ht ht'] at h
    refine ifAhead_eq_success.mpr (h.imp ?_ ?_)
    · exact And.imp_right (hyes.success ht ht')
    · exact And.imp_right (hno.success ht ht')
  refuses {w t t'} ht ht' h := by
    rw [refuses_ifAhead, hp.accepts_eq ht ht'] at h
    refine refuses_ifAhead.mpr (h.imp ?_ ?_)
    · exact And.imp_right (hyes.refuses ht ht')
    · exact And.imp_right (hno.refuses ht ht')

/-! ## Repetition -/

theorem Eats.bind_carries (hp : Eats p) (hf : ∀ a, Carries (f a)) : Eats (p >>= f) := by
  intro s b r h
  obtain ⟨a, rest, hrest, h⟩ := bind_eq_success.mp h
  have hlt := hp s a rest hrest
  have hle := ((hf a).suffix h).length_le
  omega

theorem eats_firstOf {ps : List (Parser ε α)} (hps : ∀ p ∈ ps, Eats p) : Eats (firstOf ps) := by
  intro s a r h
  obtain ⟨before, p, after, rfl, -, hp⟩ := firstOf_eq_success.mp h
  exact hps p (by simp) s a r hp

theorem Turns.length_le (hp : Eats p) (h : Turns p s as r) : as.length + r.length ≤ s.length := by
  induction h with
  | done => simp
  | turn first others ih =>
      have hlt := hp _ _ _ first
      rw [List.length_cons]
      omega

/-- Turns are taken up to a refusal, if there is one at the end of the text. -/
theorem refuses_of_repeatedUpTo (hp : Eats p) (hnil : p.Refuses []) {n : Nat} (hn : s.length ≤ n)
    (h : repeatedUpTo p n s = .success as r) : p.Refuses r := by
  induction n generalizing s as with
  | zero =>
      obtain rfl := List.length_eq_zero_iff.mp (Nat.le_zero.mp hn)
      obtain ⟨-, rfl⟩ := Outcome.success.inj (h : Outcome.success [] [] = .success as r)
      exact hnil
  | succ n ih =>
      unfold repeatedUpTo at h
      cases hfirst : p s with
      | success a rest =>
          rw [hfirst] at h
          dsimp only at h
          have hlt := hp s a rest hfirst
          cases hothers : repeatedUpTo p n rest with
          | success as' r' =>
              rw [hothers] at h
              obtain ⟨-, rfl⟩ := Outcome.success.inj h
              exact ih (by omega) hothers
          | refusal place reason => simp [hothers] at h
          | failure place reason => simp [hothers] at h
      | refusal place reason =>
          rw [hfirst] at h
          obtain ⟨-, rfl⟩ := Outcome.success.inj h
          exact ⟨place, reason, hfirst⟩
      | failure place reason => simp [hfirst] at h

theorem repeated_eq_success (hp : Eats p) (hnil : p.Refuses []) :
    repeated p s = .success as r ↔ Turns p s as r ∧ p.Refuses r := by
  constructor
  · intro h
    exact ⟨turns_of_repeated h, refuses_of_repeatedUpTo hp hnil le_rfl h⟩
  · rintro ⟨h, hr⟩
    have hle := h.length_le hp
    exact h.repeated hr (by omega)

theorem firm_repeated (p : Parser ε α) : Firm (repeated p) := by
  have hnever (n : Nat) (s : List Char) : ¬ (repeatedUpTo p n).Refuses s := by
    induction n generalizing s with
    | zero =>
        rintro ⟨place, reason, h⟩
        cases h
    | succ n ih =>
        rintro ⟨place, reason, h⟩
        unfold repeatedUpTo at h
        cases hp : p s with
        | success a rest =>
            rw [hp] at h
            dsimp only at h
            cases hothers : repeatedUpTo p n rest with
            | success as r => simp [hothers] at h
            | refusal place' reason' => exact ih rest ⟨place', reason', hothers⟩
            | failure place' reason' => simp [hothers] at h
        | refusal place' reason' => simp [hp] at h
        | failure place' reason' => simp [hp] at h
  exact fun s => hnever s.length s

theorem Turns.suffix (hp : Carries p) (h : Turns p s as r) : r <:+ s := by
  induction h with
  | done => exact List.suffix_refl _
  | turn first others ih => exact ih.trans (hp.suffix first)

theorem Turns.success (hp : Carries p) (ht : Closes t) (ht' : Closes t')
    (h : Turns p (w ++ t) as (v ++ t)) : Turns p (w ++ t') as (v ++ t') := by
  generalize hs : w ++ t = s at h
  generalize hr : v ++ t = r at h
  induction h generalizing w with
  | done =>
      obtain rfl := List.append_cancel_right (hs.trans hr.symm)
      exact .done
  | turn first others ih =>
      subst hs hr
      have hle := (others.suffix hp).length_le
      rw [List.length_append] at hle
      obtain ⟨u, rfl⟩ := exists_eq_append_of_suffix (hp.suffix first) (by omega)
      exact .turn (hp.success ht ht' first) (ih rfl rfl)

theorem Local.repeated (hp : Local p) (heats : Eats p) (hnil : p.Refuses []) :
    Carries (repeated p) where
  suffix h := (turns_of_repeated h).suffix hp.toCarries
  success {w v t t' as} ht ht' h := by
    obtain ⟨hturns, hrefuses⟩ := (repeated_eq_success heats hnil).mp h
    exact (repeated_eq_success heats hnil).mpr
      ⟨hturns.success hp.toCarries ht ht', hp.refuses ht ht' hrefuses⟩

/-- Operands and operators that are local, where the operators take something and refuse an end of
the text. -/
theorem Local.leftGrouped {group : ω → α → α → α} {operator : Parser ε ω} (hp : Local p)
    (hoperator : Local operator) (heats : Eats operator) (hnil : operator.Refuses []) :
    Local (leftGrouped group p operator) := by
  have hright (o : ω) : Carries (committed p >>= fun right => Pure.pure (o, right)) :=
    hp.toCarries.committed.bind fun right => carries_pure (o, right)
  have hfurther : Local (further p operator) :=
    hoperator.spaced.bind_firm hright fun o => (firm_committed p).bind fun _ => firm_pure _
  have heats' : Eats (further p operator) := heats.spaced.bind_carries hright
  have hnil' : (further p operator).Refuses [] := refuses_bind.mpr (.inl (refuses_spaced.mpr hnil))
  exact hp.bind_firm
    (fun _ => (hfurther.repeated heats' hnil').bind fun _ => carries_pure _)
    fun _ => (firm_repeated _).bind fun _ => firm_pure _

end Credence.Parser
