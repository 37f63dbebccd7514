import Credence.Proofs.Condition.Printing
import Credence.Proofs.Condition.Soundness

/-!
# The written form of a tree

The written form puts parentheses around every operator with its operands, and around nothing else.
It quotes texts for a reader: what does not show by itself is written with a letter or a code point
behind a backslash, while the grammar takes the character behind a backslash as it stands.  So the
written form is laid out of the tokens that are printed under the policy `aroundOperators`, where
every text has become the text that is read (`Token.reread`).

It is parsed as the tree again if the policy suits the tree and every token is read as it was.
-/

namespace Credence.Expr

open Grammar
open Decimal (IsUnsigned IsOverflow IsRead isFinite)

variable {c : Char} {s : List Char} {v : String} {t u : Token} {ts : List Token} {x : Float}
  {e : Expr} {args : List Expr} {wraps : Nat → Expr → Bool} {loose : Bool} {logic : String}

/-! ## Texts -/

/-- What a character is read as inside quotes. -/
def reread (c : Char) : List Char :=
  match Text.quoteChar c with
  | '\\' :: rest => rest
  | written => written

/-- What a text is read as inside quotes. -/
def rereadText (v : String) : String := String.ofList (v.toList.flatMap reread)

/-- Whether all characters of a text show by themselves. -/
def Shown (v : String) : Prop := ∀ c ∈ v.toList, Text.shows c = true

theorem not_special_of_mem_hexDigits {n : Nat} (hc : c ∈ Text.hexDigits n) :
    c ≠ '\x22' ∧ c ≠ '\\' := by
  obtain ⟨k, hk, rfl⟩ := Decimal.mem_toDigits hc
  have hall : ∀ k, k < 16 → Nat.digitChar k ≠ '\x22' ∧ Nat.digitChar k ≠ '\\' := by decide
  exact hall k hk

theorem Grammar.Quoted.append {quote : Char} {content content' written written' : List Char}
    (h : Quoted quote content written) (h' : Quoted quote content' written') :
    Quoted quote (content ++ content') (written ++ written') := by
  induction h with
  | nil => exact h'
  | plain hquote hslash others ih => exact .plain hquote hslash ih
  | hidden others ih => exact .hidden ih

/-- A character is written in one of three ways. -/
theorem quoteChar_cases (c : Char) :
    (∃ d, Text.quoteChar c = ['\\', d] ∧ (d = c ↔ Text.shows c = true)) ∨
      (Text.quoteChar c = [c] ∧ c ≠ '\x22' ∧ c ≠ '\\' ∧ Text.shows c = true) ∨
      (Text.quoteChar c = '\\' :: 'u' :: '\x7b' :: (Text.hexDigits c.toNat ++ ['\x7d']) ∧
        Text.shows c = false) := by
  unfold Text.quoteChar
  split_ifs with hquote hslash htab hline hreturn hnull hshows
  · exact .inl ⟨'\x22', rfl, by subst hquote; decide⟩
  · exact .inl ⟨'\\', rfl, by subst hslash; decide⟩
  · exact .inl ⟨'t', rfl, by subst htab; decide⟩
  · exact .inl ⟨'n', rfl, by subst hline; decide⟩
  · exact .inl ⟨'r', rfl, by subst hreturn; decide⟩
  · exact .inl ⟨'0', rfl, by subst hnull; decide⟩
  · exact .inr (.inl ⟨rfl, hquote, hslash, hshows⟩)
  · exact .inr (.inr ⟨by simp, by simpa using hshows⟩)

theorem quoted_reread (c : Char) : Quoted '\x22' (reread c) (Text.quoteChar c) := by
  unfold reread
  obtain ⟨d, hd, -⟩ | ⟨hc, hquote, hslash, -⟩ | ⟨hc, -⟩ := quoteChar_cases c
  · rw [hd]
    exact .hidden .nil
  · rw [hc]
    split
    · rename_i heq
      exact absurd (List.cons.inj heq).1 hslash
    · exact .plain hquote hslash .nil
  · rw [hc]
    refine .hidden (quoted_self ?_)
    intro d hd
    simp only [List.mem_cons, List.mem_append, List.not_mem_nil, or_false] at hd
    obtain rfl | hd | rfl := hd
    · decide
    · exact not_special_of_mem_hexDigits hd
    · decide

/-- A character is read as itself exactly if it shows. -/
theorem reread_eq_self_iff : reread c = [c] ↔ Text.shows c = true := by
  unfold reread
  obtain ⟨d, hd, hshows⟩ | ⟨hc, -, hslash, hshows⟩ | ⟨hc, hshows⟩ := quoteChar_cases c
  · rw [hd]
    simpa using hshows
  · rw [hc]
    split
    · rename_i heq
      exact absurd (List.cons.inj heq).1 hslash
    · simp [hshows]
  · rw [hc]
    simp [hshows]

theorem reread_ne_nil (c : Char) : reread c ≠ [] := by
  unfold reread
  obtain ⟨d, hd, -⟩ | ⟨hc, -, hslash, -⟩ | ⟨hc, -⟩ := quoteChar_cases c
  · simp [hd]
  · rw [hc]
    split
    · rename_i heq
      exact absurd (List.cons.inj heq).1 hslash
    · simp
  · simp [hc]

theorem length_le_length_flatMap_reread (s : List Char) : s.length ≤ (s.flatMap reread).length := by
  induction s with
  | nil => simp
  | cons c s ih =>
      have hpos := List.length_pos_of_ne_nil (reread_ne_nil c)
      rw [List.flatMap_cons, List.length_append, List.length_cons]
      omega

/-- A text is read as itself exactly if all its characters show. -/
theorem flatMap_reread_eq_self_iff : s.flatMap reread = s ↔ ∀ c ∈ s, Text.shows c = true := by
  induction s with
  | nil => simp
  | cons c s ih =>
      rw [List.flatMap_cons, List.forall_mem_cons, ← ih, ← reread_eq_self_iff]
      constructor
      · intro h
        have hpos := List.length_pos_of_ne_nil (reread_ne_nil c)
        have hle := length_le_length_flatMap_reread s
        have hlength := congrArg List.length h
        rw [List.length_append, List.length_cons] at hlength
        exact List.append_inj (show reread c ++ s.flatMap reread = [c] ++ s from h) (by simp; omega)
      · rintro ⟨hc, hs⟩
        rw [hc, hs]
        rfl

theorem rereadText_eq_self_iff : rereadText v = v ↔ Shown v := by
  unfold rereadText Shown
  rw [← flatMap_reread_eq_self_iff, ← String.toList_inj, String.toList_ofList]

/-! ## Tokens of the written form -/

/-- Parentheses stand around every operator with its operands, and nowhere else. -/
def aroundOperators (_ : Nat) : Expr → Bool
  | binary _ _ _ => true
  | _ => false

/-- What a token of a written form is read as. -/
def Token.reread : Token → Token
  | number x => if isFinite x then number x else word "inf"
  | text s => text (rereadText s)
  | t => t

theorem reread_number (x : Float) :
    (Token.number x).reread = if isFinite x then .number x else .word "inf" := rfl

/-- What the written form of a tree is read as, were it not for the parentheses around the whole. -/
def core (e : Expr) : List Token := (e.tokens aroundOperators).map Token.reread

/-- What the written form of a tree is read as. -/
def displayed (e : Expr) : List Token := enclose (aroundOperators 0 e) e.core

/-- What the written form of arguments is read as. -/
def displayedAll (args : List Expr) : List Token :=
  (tokensAll aroundOperators args).map Token.reread

theorem map_reread_enclose (k : Nat) (e : Expr) :
    (enclose (aroundOperators k e) (e.tokens aroundOperators)).map Token.reread = e.displayed := by
  show (enclose (aroundOperators 0 e) _).map Token.reread = _
  unfold displayed core enclose
  split
  · simp [Token.reread]
  · rfl

theorem map_reread_operator (op : Operator) : op.tokens.map Token.reread = op.tokens := by
  cases op <;> rfl

theorem map_reread_separator (args : List Expr) :
    (separator args).map Token.reread = separator args := by
  cases args <;> rfl

section

variable (op : Operator) (left right subject inner : Expr) (name concept key source : String)
  (negated : Bool) (function : Builtin) (body : Formula) (rest : List Expr)

theorem core_relation : (relation name left right negated).core =
    left.displayed ++ .mark (linkMark negated) :: .word name :: .mark (linkMark negated) ::
      right.displayed := by
  simp [core, tokens, map_reread_enclose, Token.reread]

theorem core_property : (property subject key).core =
    subject.displayed ++ [.mark ".", .word key] := by
  simp [core, tokens, map_reread_enclose, Token.reread]

theorem core_method : (method subject name args).core =
    subject.displayed ++
      (.mark "." :: .word name :: .mark "(" :: displayedAll args ++ [.mark ")"]) := by
  simp [core, tokens, map_reread_enclose, Token.reread, displayedAll]

theorem core_construct : (construct concept args).core =
    .parameter concept none :: .mark "(" :: displayedAll args ++ [.mark ")"] := by
  simp [core, tokens, Token.reread, displayedAll]

theorem core_builtin : (builtin function args).core =
    .word function.name :: .mark "(" :: displayedAll args ++ [.mark ")"] := by
  simp [core, tokens, Token.reread, displayedAll]

theorem core_formula : (formula args body source).core =
    .word "f" :: .mark "(" ::
      (displayedAll args ++ separator args ++ [.text (rereadText source)]) ++
      [.mark ")"] := by
  simp [core, tokens, Token.reread, displayedAll, map_reread_separator]

theorem core_binary : (binary op left right).core =
    left.displayed ++ op.tokens ++ right.displayed := by
  simp [core, tokens, map_reread_enclose, map_reread_operator]

theorem core_negate : (negate inner).core = .mark "-" :: inner.displayed := by
  simp [core, tokens, map_reread_enclose, Token.reread]

theorem displayedAll_cons :
    displayedAll (e :: rest) = e.displayed ++ separator rest ++ displayedAll rest := by
  simp [displayedAll, tokensAll, map_reread_enclose, map_reread_separator]

end

/-! ## Neighbours in the written form -/

theorem Token.Proper.reread (h : t.Proper IsRead) : t.reread.Proper IsUnsigned := by
  cases t with
  | number x =>
      rw [reread_number]
      obtain hx | hx := (show IsRead x from h)
      · rw [if_pos hx.isFinite]
        exact hx
      · rw [if_neg (by simp [hx.not_isFinite])]
        exact isWord_iff.mp (by decide)
  | text _ | parameter _ _ | word _ | mark _ => exact h

theorem Apart.reread (h : Apart t u) : Apart t.reread u.reread := by
  cases t with
  | number x =>
      rw [reread_number]
      cases u with
      | number y => exact h.elim
      | text _ | parameter _ _ | word _ | mark _ => split_ifs <;> trivial
  | text _ | parameter _ _ | word _ => trivial
  | mark m =>
      cases u with
      | number y =>
          rw [reread_number]
          split_ifs
          · exact h
          · trivial
      | text _ | parameter _ _ | word _ | mark _ => exact h

theorem Token.Closes.reread (h : t.Closes) : t.reread.Closes := by
  cases t with
  | number x =>
      rw [reread_number]
      split_ifs <;> trivial
  | text _ | parameter _ _ | word _ | mark _ => exact h

theorem Row.reread (h : Row IsRead ts) : Row IsUnsigned (ts.map Token.reread) := by
  refine ⟨?_, (List.isChain_map _).mpr (h.apart.imp fun _ _ => Apart.reread), ?_⟩
  · intro t ht
    obtain ⟨u, hu, rfl⟩ := List.mem_map.mp ht
    exact (h.proper u hu).reread
  · intro t ht
    rw [List.getLast?_map] at ht
    obtain ⟨u, hu, rfl⟩ := Option.map_eq_some_iff.mp ht
    exact (h.closes u hu).reread

/-- What is read of a written form are tokens that stay apart. -/
theorem row_displayed (h : e.Formed IsRead) : Row IsUnsigned e.displayed := by
  rw [← map_reread_enclose 0 e]
  exact ((row_tokens aroundOperators e h).enclose (begins_tokens e) _).reread

/-! ## Layout of the written form -/

theorem written_word (w : String) : (Token.word w).Written w.toList := rfl

theorem written_mark (m : String) : (Token.mark m).Written m.toList := rfl

theorem written_quote (v : String) : (Token.text (rereadText v)).Written (Text.quote v).toList := by
  refine ⟨v.toList.flatMap Text.quoteChar, ?_, by simp [Text.quote, Text.quoteChars]⟩
  unfold rereadText
  rw [String.toList_ofList]
  induction v.toList with
  | nil => exact .nil
  | cons c s ih => exact (quoted_reread c).append ih

theorem written_plain (h : IsRead x) :
    (Token.number x).reread.Written (Decimal.plain x).toList := by
  rw [reread_number]
  obtain hx | hx := h
  · rw [if_pos hx.isFinite]
    rfl
  · rw [if_neg (by simp [hx.not_isFinite]), Decimal.plain_of_isOverflow hx]
    rfl

/-- An operator is written with gaps around it. -/
theorem laid_operator (op : Operator) : Laid op.tokens op.symbol.toList := by
  have hmark (m : String) : Laid [.mark m] m.toList := (written_mark m).laid
  have hword (w : String) : Laid [.word w] w.toList := (written_word w).laid
  cases op with
  | or | and | is => exact hword _
  | isNot => exact (hword "is").append (hword "not").behind_blank (fun _ => rfl)
  | add | sub | mul | pow | div | floorDiv | mod | eq | ne | gt | lt | ge | le => exact hmark _

/-- Parentheses around a layout. -/
theorem Laid.enclosed (h : Laid ts s) : Laid (.mark "(" :: ts ++ [.mark ")"]) ('(' :: s ++ [')']) :=
  ((written_mark "(").laid.append h (by simp [Token.endsName])).append (written_mark ")").laid
    (fun _ => rfl)

/-- A word and its arguments. -/
theorem Laid.call (h : Laid ts s) (w : String) :
    Laid (.word w :: .mark "(" :: ts ++ [.mark ")"]) (w.toList ++ '(' :: s ++ [')']) := by
  have hrow := (written_word w).laid.append h.enclosed (fun _ => rfl)
  simpa using hrow

mutual

/-- The written form of a tree is laid out of the tokens that it is read as. -/
theorem laid_displayed : ∀ e : Expr, e.Formed IsRead → Laid e.displayed e.toText.toList
  | slot .domain, _ => (written_mark "%").laid
  | slot .target, _ => (written_mark "@").laid
  | slot (.param concept tag), _ =>
      (show (Token.parameter concept tag).Written (Slot.param concept tag).toText.toList
        from rfl).laid
  | number x, h => (written_plain h).laid
  | text v, _ => (written_quote v).laid
  | relation name domain target negated, h => by
      have hsign : Laid [.mark (linkMark negated)] (linkMark negated).toList :=
        (written_mark _).laid
      have hname := (written_word name).laid.append
        (hsign.append (laid_displayed target h.2.2) (by simp [Token.endsName])) (fun _ => rfl)
      have hrow := (laid_displayed domain h.2.1).append
        (hsign.append hname (by simp [Token.endsName])) (fun _ => rfl)
      show Laid (relation name domain target negated).core _
      rw [core_relation]
      simpa [toText, linkMark] using hrow
  | property subject key, h => by
      have hkey := (written_mark ".").laid.append (written_word key).laid (by simp [Token.endsName])
      have hrow := (laid_displayed subject h.2).append hkey (fun _ => rfl)
      show Laid (property subject key).core _
      rw [core_property]
      simpa [toText] using hrow
  | method subject name args, h => by
      have hcall := (written_mark ".").laid.append
        ((laid_displayedAll args h.2.2).call name) (by simp [Token.endsName])
      have hrow := (laid_displayed subject h.2.1).append hcall (fun _ => rfl)
      show Laid (method subject name args).core _
      rw [core_method]
      simpa [toText] using hrow
  | construct concept args, h => by
      have hconcept : (Token.parameter concept none).Written ('#' :: concept.toList) := by
        simp [Token.Written, Token.chars, Slot.toText]
      have hrow := hconcept.laid.append (laid_displayedAll args h.2).enclosed (fun _ => rfl)
      show Laid (construct concept args).core _
      rw [core_construct]
      simpa [toText] using hrow
  | builtin function args, h => by
      have hrow := (laid_displayedAll args h.2).call function.name
      show Laid (builtin function args).core _
      rw [core_builtin]
      simpa [toText] using hrow
  | formula args body source, h => by
      have hargs := laid_displayedAll args h.2.2
      have hsource := (written_quote source).laid
      show Laid (formula args body source).core _
      rw [core_formula]
      cases args with
      | nil =>
          have hrow := hsource.call "f"
          simpa [toText, displayedAll, tokensAll, separator, listText] using hrow
      | cons e rest =>
          have hcomma := (written_mark ",").laid.append hsource.behind_blank
            (by simp [Token.endsName])
          have hrow := (hargs.append hcomma (fun _ => rfl)).call "f"
          simpa [toText, separator] using hrow
  | binary op left right, h => by
      have hright := (laid_operator op).append (laid_displayed right h.2).behind_blank
        (fun _ => sparesName_blank _ _)
      have hrow := ((laid_displayed left h.1).append hright.behind_blank
        (fun _ => sparesName_blank _ _)).enclosed
      show Laid (.mark "(" :: (binary op left right).core ++ [.mark ")"]) _
      rw [core_binary]
      simpa [toText] using hrow
  | negate inner, h => by
      have hrow :=
        (written_mark "-").laid.append (laid_displayed inner h) (by simp [Token.endsName])
      show Laid (negate inner).core _
      rw [core_negate]
      simpa [toText] using hrow

theorem laid_displayedAll : ∀ args : List Expr, AllFormed IsRead args →
    Laid (displayedAll args) (listText args).toList
  | [], _ => .done rfl
  | [e], h => by
      rw [displayedAll_cons]
      simpa [listText, displayedAll, tokensAll, separator] using laid_displayed e h.1
  | e :: e' :: rest, h => by
      have hcomma := (written_mark ",").laid.append
        (laid_displayedAll (e' :: rest) h.2).behind_blank (by simp [Token.endsName])
      have hrow := (laid_displayed e h.1).append hcomma (fun _ => rfl)
      rw [displayedAll_cons]
      simpa [listText, separator] using hrow

end

end Credence.Expr
