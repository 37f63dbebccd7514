import Credence.Json.Reader

/-!
# Texts in documents read back

A character between quotes is written as itself, after a backslash, or as a number of 16 bits.  The
numbers are those of control characters, so none of them is half of a character, and the pieces that
are read join to the text that was written.
-/

namespace Credence.Json

variable {c : Char} {n : Nat} {after : List Char}

/-- The piece that a character is read back as. -/
def pieceOf (c : Char) : Piece :=
  if c.toNat < 0x20 ∧ c ∉ ['\n', '\r', '\t', '\x08', '\x0c'] then .unit c.toNat else .char c

theorem hexUnit?_append {text rest : List Char} (h : hexUnit? text = some (n, rest)) :
    hexUnit? (text ++ after) = some (n, rest ++ after) := by
  match text with
  | [] | [_] | [_, _] | [_, _, _] => nomatch h
  | a :: b :: c :: d :: more =>
      simp only [hexUnit?, Option.bind_eq_bind, Option.bind_eq_some_iff, Option.pure_def,
        Option.some.injEq, Prod.mk.injEq] at h
      obtain ⟨x, ha, y, hb, z, hc, w, hd, rfl, rfl⟩ := h
      simp [hexUnit?, ha, hb, hc, hd]

theorem hexUnit?_hexFour (hn : n < 0x20) (after : List Char) :
    hexUnit? (hexFour n ++ after) = some (n, after) := by
  have hdigits : ∀ n, n < 0x20 → hexUnit? (hexFour n) = some (n, []) := by decide
  exact hexUnit?_append (hdigits n hn)

/-! ## Pieces -/

/-- A character that is read as a piece of its own, in front of others. -/
def Leads (text : List Char) (p : Piece) : Prop :=
  ∀ n after, pieces (n + 1) (text ++ after) = (pieces n after).map fun q => (p :: q.1, q.2)

theorem leads_backslash {e : Char} (he : e ≠ 'u') (hc : escaped? e = some c) :
    Leads ['\\', e] (.char c) := by
  intro n after
  show pieces (n + 1) ('\\' :: e :: after) = _
  conv => lhs; unfold pieces
  rw [if_neg (by decide), if_neg (by decide), if_pos rfl]
  dsimp only
  rw [if_neg he, hc]
  cases pieces n after <;> rfl

theorem leads_unit (hn : n < 0x20) : Leads ('\\' :: 'u' :: hexFour n) (.unit n) := by
  intro m after
  show pieces (m + 1) ('\\' :: 'u' :: (hexFour n ++ after)) = _
  conv => lhs; unfold pieces
  rw [if_neg (by decide), if_neg (by decide), if_pos rfl]
  dsimp only
  rw [if_pos rfl, hexUnit?_hexFour hn]
  simp only [Option.bind_eq_bind, Option.bind_some]
  cases pieces m after <;> rfl

theorem leads_plain (hquote : c ≠ '\x22') (hcontrol : ¬ c.toNat < 0x20) (hslash : c ≠ '\\') :
    Leads [c] (.char c) := by
  intro n after
  show pieces (n + 1) (c :: after) = _
  conv => lhs; unfold pieces
  rw [if_neg hquote, if_neg hcontrol, if_neg hslash]
  cases pieces n after <;> rfl

/-- A written character is read as one piece. -/
theorem leads_escape (c : Char) : Leads (escape c) (pieceOf c) := by
  by_cases hnamed : c ∈ ['\x22', '\\', '\n', '\r', '\t', '\x08', '\x0c']
  · simp only [List.mem_cons, List.not_mem_nil, or_false] at hnamed
    rcases hnamed with rfl | rfl | rfl | rfl | rfl | rfl | rfl <;>
      exact leads_backslash (by decide) (by decide)
  · simp only [List.mem_cons, List.not_mem_nil, or_false, not_or] at hnamed
    obtain ⟨hquote, hslash, hn, hr, ht, hb, hf⟩ := hnamed
    unfold escape pieceOf
    rw [if_neg hquote, if_neg hslash, if_neg hn, if_neg hr, if_neg ht, if_neg hb, if_neg hf]
    by_cases hcontrol : c.toNat < 0x20
    · rw [if_pos hcontrol, if_pos ⟨hcontrol, by simp [hn, hr, ht, hb, hf]⟩]
      exact leads_unit hcontrol
    · rw [if_neg hcontrol, if_neg fun h => hcontrol h.1]
      exact leads_plain hquote hcontrol hslash

/-- What stands between the quotes is read up to the closing quote. -/
theorem pieces_quoted (cs : List Char) (hn : cs.length < n) (after : List Char) :
    pieces n (cs.flatMap escape ++ '\x22' :: after) = some (cs.map pieceOf, after) := by
  induction cs generalizing n with
  | nil =>
      cases n with
      | zero => nomatch hn
      | succ n =>
          show pieces (n + 1) ('\x22' :: after) = _
          conv => lhs; unfold pieces
          rw [if_pos rfl]
          rfl
  | cons c cs ih =>
      cases n with
      | zero => nomatch hn
      | succ n =>
          rw [List.length_cons] at hn
          rw [List.flatMap_cons, List.append_assoc, leads_escape c n, ih (by omega)]
          rfl

/-- The pieces of a text join to it. -/
theorem joined?_map_pieceOf (cs : List Char) : joined? (cs.map pieceOf) = some cs := by
  have hunit : ∀ n, n < 0x20 → ∀ ps : List Piece,
      joined? (.unit n :: ps) = (joined? ps).map (Char.ofNat n :: ·) := by
    intro n hn ps
    cases ps with
    | nil =>
        conv => lhs; unfold joined?
        exact if_neg (by omega)
    | cons p ps =>
        cases p with
        | char d =>
            conv => lhs; unfold joined?
            exact if_neg (by omega)
        | unit low =>
            conv => lhs; unfold joined?
            rw [if_neg (by omega), if_neg (by omega)]
  induction cs with
  | nil => rfl
  | cons c cs ih =>
      rw [List.map_cons, pieceOf]
      split
      · rename_i h
        rw [hunit c.toNat h.1, ih, Option.map_some, Char.ofNat_toNat]
      · rw [joined?, ih]
        rfl

theorem length_le_length_flatMap_escape (cs : List Char) :
    cs.length ≤ (cs.flatMap escape).length := by
  induction cs with
  | nil => exact Nat.le_refl 0
  | cons c cs ih =>
      have hc : 1 ≤ (escape c).length := by
        unfold escape
        repeat' split
        all_goals simp
      rw [List.length_cons, List.flatMap_cons, List.length_append]
      omega

/-- A quoted text is read back, and nothing behind it is touched. -/
theorem pieces_text (s : String) (hn : (s.toList.flatMap escape).length < n) (after : List Char) :
    ∃ ps, pieces n (s.toList.flatMap escape ++ '\x22' :: after) = some (ps, after) ∧
      spelled ps = some s := by
  have hle := length_le_length_flatMap_escape s.toList
  refine ⟨s.toList.map pieceOf, pieces_quoted s.toList (by omega) after, ?_⟩
  unfold spelled
  rw [joined?_map_pieceOf, Option.map_some, String.ofList_toList]

end Credence.Json
