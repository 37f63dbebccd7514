import Credence.Proofs.Formula.Reading

/-!
# Formulas are read back

A formula over finite numbers without a sign and ASCII letters is printed with parentheses exactly
around the operands that are weaker than their place, with either sign for each power, and with any
gaps around and between the tokens.  Whatever is printed for it is parsed as the formula.
-/

namespace Credence.Formula

open Text (IsGap isGap_nil)

variable {f : Formula} {k : Nat} {text : List Char}

/-- Numbers are finite and have no sign, a minus in front being a `negate`; variables are ASCII
letters. -/
def WellFormed : Formula → Prop
  | number x => Decimal.IsUnsigned x
  | var c => c.isAlpha = true
  | negate inner => inner.WellFormed
  | combine _ left right => left.WellFormed ∧ right.WellFormed

/-- A text is a print of a formula, by the strict rules and with any gaps around it. -/
def Printed (f : Formula) (text : List Char) : Prop :=
  ∃ before u after, IsGap before ∧ IsGap after ∧ text = before ++ u ++ after ∧ Spells false 0 f u

theorem Operation.spellings_ne_nil (op : Operation) : op.spellings ≠ [] := by
  cases op <;> simp [Operation.spellings]

/-- An operand that is printed without parentheses stands in them where it is too weak. -/
theorem exists_spells_of_strength {u : List Char} (h : ∀ k ≤ f.strength, Spells false k f u) :
    ∀ k, ∃ u, Spells false k f u := by
  intro k
  obtain hk | hk := Nat.lt_or_ge f.strength k
  · exact ⟨_, .enclosed (.inr hk) isGap_nil isGap_nil (h 0 (Nat.zero_le _))⟩
  · exact ⟨u, h k hk⟩

/-- Every formula can be printed in every place. -/
theorem WellFormed.exists_spells (h : f.WellFormed) (k : Nat) : ∃ u, Spells false k f u := by
  induction f generalizing k with
  | number x => exact ⟨_, .number (.inl ⟨h, rfl⟩)⟩
  | var c => exact ⟨_, .var h⟩
  | negate inner ih =>
      obtain ⟨u, hu⟩ := ih h 2
      exact exists_spells_of_strength (fun k hk => .negate hk isGap_nil hu) k
  | combine op l r ihl ihr =>
      obtain ⟨u, hu⟩ := ihl h.1 op.left
      obtain ⟨v, hv⟩ := ihr h.2 op.right
      obtain ⟨sign, hsign⟩ := List.exists_mem_of_ne_nil _ (Operation.spellings_ne_nil op)
      exact exists_spells_of_strength
        (fun k hk => .combine hk hsign isGap_nil isGap_nil hu hv) k

/-- Every formula over finite numbers and letters has a print, and each of its prints is parsed as
the formula: `+` and `-` are weaker than `*` and `/`, those are weaker than the minus sign, and a
power is the strongest; the first four group to the left, and a power, written `^` or `**`, takes a
signed exponent. -/
theorem printed_reads_back (h : f.WellFormed) :
    (∃ text, f.Printed text) ∧ ∀ text, f.Printed text → parse text = .ok f := by
  constructor
  · obtain ⟨u, hu⟩ := h.exists_spells 0
    exact ⟨u, [], u, [], isGap_nil, isGap_nil, by simp, hu⟩
  · rintro text ⟨before, u, after, hbefore, hafter, rfl, hu⟩
    exact parse_of_spells hbefore hafter hu

/-- The product of a number and the square of a difference, to a signed power. -/
def signedPowers : Formula :=
  .combine .mul (.number 2) (.negate (.combine .pow (.combine .sub (.var 'a') (.var 'b'))
    (.combine .pow (.number 2) (.negate (.var 'x')))))

theorem printed_reads_back_signedPowers :
    signedPowers.WellFormed ∧ signedPowers.Printed "\n2*- ( a -\tb)**2 ^-x ".toList ∧
      parse "\n2*- ( a -\tb)**2 ^-x ".toList = .ok signedPowers := by
  have htwo : Decimal.IsUnsigned 2 := ⟨2 ^ 52, -51, by decide +kernel⟩
  have hwell : signedPowers.WellFormed := by
    refine ⟨htwo, ⟨?_, ?_⟩, htwo, ?_⟩ <;>
    · show Char.isAlpha _ = true
      decide
  have hgap (c : Char) (hc : Text.isGap c = true) : IsGap [c] := by simpa [IsGap] using hc
  have hnumber (k : Nat) : Spells false k (.number 2) ['2'] :=
    .number (.inl ⟨htwo, by decide +kernel⟩)
  have hdifference : Spells false 0 (.combine .sub (.var 'a') (.var 'b'))
      (['a'] ++ [' '] ++ ['-'] ++ (['\t'] ++ ['b'])) :=
    .combine le_rfl (by decide) (hgap ' ' rfl) (hgap '\t' rfl) (.var (by decide)) (.var (by decide))
  have hbase : Spells false 4 (.combine .sub (.var 'a') (.var 'b'))
      ('(' :: ([' '] ++ (['a'] ++ [' '] ++ ['-'] ++ (['\t'] ++ ['b'])) ++ []) ++ [')']) :=
    .enclosed (.inr (by decide)) (hgap ' ' rfl) isGap_nil hdifference
  have hexponent : Spells false 2 (.combine .pow (.number 2) (.negate (.var 'x')))
      (['2'] ++ [' '] ++ ['^'] ++ ([] ++ '-' :: ([] ++ ['x']))) :=
    .combine (by decide) (by decide) (hgap ' ' rfl) isGap_nil (hnumber 4)
      (.negate le_rfl isGap_nil (.var (by decide)))
  have hstars : ['*', '*'] ∈ Operation.spellings .pow := by decide
  have hpower := Spells.combine (by decide : 2 ≤ 3) hstars isGap_nil isGap_nil hbase hexponent
  have hprinted : signedPowers.Printed "\n2*- ( a -\tb)**2 ^-x ".toList :=
    ⟨['\n'], _, [' '], hgap '\n' rfl, hgap ' ' rfl, by decide +kernel,
      .combine (Nat.zero_le 1) List.mem_cons_self isGap_nil isGap_nil (hnumber 1)
        (.negate le_rfl (hgap ' ' rfl) hpower)⟩
  exact ⟨hwell, hprinted, (printed_reads_back hwell).2 _ hprinted⟩

end Credence.Formula
