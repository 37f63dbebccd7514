import Credence.Proofs.Condition.Operators
import Credence.Proofs.Decimal.Plain
import Credence.Proofs.Text.Blank
import Mathlib.Data.List.Chain

/-!
# Tokens laid out in a text

A row of tokens may be laid out with any gaps between them; a gap is needed only where a word would
grow by what follows it (`Laid`).  This makes sense for a row in which no two neighbours would be
taken for one token: a single `*` and then another one, or a point and then a number.  An operand
ends with a token that nothing can continue, and begins with one that continues nothing, so in a row
of operands and signs neighbours stay `Apart`, and the text comes apart into the same tokens again.
-/

namespace Credence.Expr

open Grammar Credence.Parser
open Decimal (IsUnsigned)
open Text (skipGap isGap isNameChar)

variable {c : Char} {s r cs gap w : List Char} {t u : Token} {ts us : List Token} {k : Nat} {e : Expr}
  {es : List Expr} {m : String} {numbers : Float → Prop}

/-! ## Written tokens -/

/-- How a character is written inside double quotes. -/
def escape (c : Char) : List Char := if c = '\x22' ∨ c = '\\' then ['\\', c] else [c]

namespace Token

/-- The plain way to write a token. -/
def chars : Token → List Char
  | number x => (Decimal.plain x).toList
  | text s => '\x22' :: s.toList.flatMap escape ++ ['\x22']
  | parameter concept tag => (Slot.param concept tag).toText.toList
  | word w => w.toList
  | mark m => m.toList

/-- Whether characters write a token.  A text stands in double quotes, and in front of every
character that needs one, or of any other, stands a backslash. -/
def Written : Token → List Char → Prop
  | text s, w => ∃ content, Quoted '\x22' s.toList content ∧ w = '\x22' :: content ++ ['\x22']
  | t, w => w = t.chars

/-- Whether a token is one of the language, with numbers of some kind. -/
def Proper (numbers : Float → Prop) : Token → Prop
  | number x => numbers x
  | text _ => True
  | parameter concept tag => IsLabel concept ∧ ∀ t ∈ tag, IsLabel t
  | word w => IsWord w.toList
  | mark m => m ∈ marks

/-- Whether a token ends with a name, which a letter or a digit at once behind it would continue. -/
def endsName : Token → Bool
  | parameter _ _ | word _ => true
  | number _ | text _ | mark _ => false

/-- Whether a token begins with a letter or a digit. -/
def beginsName : Token → Bool
  | number _ | word _ => true
  | text _ | parameter _ _ | mark _ => false

end Token

/-- Whether tokens, laid out somehow, may stand at once behind a name: they do not begin with a
letter or a digit, or there is a gap before them. -/
def sparesName (ts : List Token) (cs : List Char) : Bool :=
  !ts.head?.any Token.beginsName || cs.head?.any isGap

/-- Tokens with gaps before them and after the last one; between a name and what begins with a
letter or a digit the gap is not empty. -/
inductive Laid : List Token → List Char → Prop
  | done {gap : List Char} (hgap : gap.all isGap = true) : Laid [] gap
  | token {gap w cs : List Char} {t : Token} {ts : List Token} (hgap : gap.all isGap = true)
      (hw : t.Written w) (hname : t.endsName = true → sparesName ts cs = true)
      (others : Laid ts cs) : Laid (t :: ts) (gap ++ w ++ cs)

theorem quoted_escape (content : List Char) : Quoted '\x22' content (content.flatMap escape) := by
  induction content with
  | nil => exact .nil
  | cons c content ih =>
      rw [List.flatMap_cons]
      unfold escape
      split_ifs with hc
      · exact .hidden ih
      · obtain ⟨hquote, hslash⟩ := not_or.mp hc
        exact .plain hquote hslash ih

/-- The plain way is one way to write a token. -/
theorem Token.written_chars (t : Token) : t.Written t.chars := by
  cases t with
  | text s => exact ⟨_, quoted_escape s.toList, rfl⟩
  | number _ | parameter _ _ | word _ | mark _ => rfl

/-- Any row of tokens can be laid out. -/
theorem laid_spaced (ts : List Token) : Laid ts (ts.flatMap fun t => ' ' :: t.chars) := by
  induction ts with
  | nil => exact .done rfl
  | cons t ts ih =>
      refine @Laid.token [' '] _ _ t ts rfl t.written_chars (fun _ => ?_) ih
      cases ts with
      | nil => rfl
      | cons t' ts => simp [sparesName, isGap]

/-! ## Neighbours -/

/-- Whether two neighbours are not taken for one token when no gap stands between them. -/
def Apart : Token → Token → Prop
  | .mark m, .mark m' => ∀ c ∈ extension? m, m'.toList.head? ≠ some c
  | .mark m, .number _ => m ≠ "."
  | .number _, .number _ => False
  | _, _ => True

/-! ### What a token begins with -/

theorem not_isDigit_of_isGap (hc : isGap c = true) : Decimal.isDigit c = false := by
  refine Bool.eq_false_iff.mpr fun hdigit => ?_
  rw [Text.isGap_of_isDigit hdigit] at hc
  exact Bool.false_ne_true hc

theorem not_isNameChar_of_mem_marks (hm : m ∈ marks) (hc : c ∈ m.toList.head?) :
    isNameChar c = false := by
  have hall : marks.all (fun m => m.toList.head?.all fun c => !isNameChar c) = true := by decide
  have hhead := List.all_eq_true.mp hall m hm
  rw [Option.mem_def.mp hc] at hhead
  simpa using hhead

/-- The first character of a written token tells its kind, and only words and numbers begin with a
letter or a digit. -/
theorem Token.Proper.head (h : u.Proper IsUnsigned) (hw : u.Written w) :
    ∃ c rest, w = c :: rest ∧ kindOf c = u.kind ∧ (u.beginsName = false → isNameChar c = false) := by
  cases u with
  | number x =>
      obtain ⟨⟨whole, hne, hdigits, hds⟩, -⟩ := Decimal.plain_spec h
      obtain rfl : w = (Decimal.plain x).toList := hw
      cases whole with
      | nil => exact absurd rfl hne
      | cons c rest =>
          have hkind : kindOf c = 0 := kindOf_of_isDigit (hdigits c (by simp))
          obtain hds | ⟨fraction, -, -, hds⟩ := hds
          · exact ⟨c, rest, hds, hkind, fun hname => by cases hname⟩
          · exact ⟨c, rest ++ '.' :: fraction, hds, hkind, fun hname => by cases hname⟩
  | text s =>
      obtain ⟨content, -, rfl⟩ := hw
      exact ⟨'\x22', _, rfl, (by decide : kindOf '\x22' = 1), fun _ => by decide⟩
  | parameter concept tag =>
      have hkind : kindOf '#' = 2 ∧ isNameChar '#' = false := by decide
      obtain rfl : w = (Slot.param concept tag).toText.toList := hw
      cases tag with
      | none => exact ⟨'#', concept.toList, by simp [Slot.toText], hkind.1, fun _ => hkind.2⟩
      | some t =>
          exact ⟨'#', '[' :: t.toList ++ ']' :: concept.toList, by simp [Slot.toText], hkind.1,
            fun _ => hkind.2⟩
  | word v =>
      obtain ⟨c, rest, hv, hc, -⟩ := h
      exact ⟨c, rest, hw.trans hv, kindOf_of_isAlphabetic hc, fun hname => by cases hname⟩
  | mark m =>
      obtain ⟨c, rest, hm, hc, -⟩ := head_of_mem_marks h
      exact ⟨c, rest, hw.trans hm, hc,
        fun _ => not_isNameChar_of_mem_marks h (by rw [hm]; rfl)⟩

theorem Token.Proper.kindOf_head (h : u.Proper IsUnsigned) (hw : u.Written (c :: w)) :
    kindOf c = u.kind ∧ (u.beginsName = false → isNameChar c = false) := by
  obtain ⟨d, rest, hd, hkind⟩ := h.head hw
  obtain ⟨rfl, -⟩ := List.cons.inj hd
  exact hkind

theorem not_isDigit_of_kindOf_ne (hc : Token.kindOf c ≠ 0) : Decimal.isDigit c = false := by
  cases hdigit : Decimal.isDigit c with
  | false => rfl
  | true => exact absurd (Token.kindOf_of_isDigit hdigit) hc

/-- What is laid out begins with a gap or with its first token. -/
theorem Laid.head (h : Laid ts cs) (hc : c ∈ cs.head?) (hts : ∀ t ∈ ts, t.Proper IsUnsigned) :
    isGap c = true ∨ ∃ u us w rest, ts = u :: us ∧ u.Written (c :: w) ∧ cs = c :: w ++ rest ∧
      Laid us rest := by
  cases h with
  | done hgap => exact .inl (List.all_eq_true.mp hgap c (List.mem_of_mem_head? hc))
  | @token gap w rest u us hgap hw hname others =>
      cases gap with
      | nil =>
          obtain ⟨d, w', rfl, -⟩ := (hts u (by simp)).head hw
          obtain rfl := Option.some.inj hc
          exact .inr ⟨u, us, w', rest, rfl, hw, rfl, others⟩
      | cons d gap =>
          obtain rfl := Option.some.inj hc
          exact .inl (List.all_eq_true.mp hgap d (by simp))

/-! ### Tokens are read again -/

/-- Nothing that may follow a name continues it. -/
theorem Laid.not_isNameChar (h : Laid ts cs) (hts : ∀ t ∈ ts, t.Proper IsUnsigned)
    (hname : sparesName ts cs = true) : ∀ c ∈ cs.head?, isNameChar c = false := by
  intro c hc
  obtain hgap | ⟨u, us, w, rest, rfl, hu, -, -⟩ := h.head hc hts
  · exact Text.isNameChar_of_isGap hgap
  · cases hbegins : u.beginsName with
    | true =>
        have hgap : isGap c = true := by
          simpa [sparesName, hbegins, Option.mem_def.mp hc] using hname
        exact Text.isNameChar_of_isGap hgap
    | false => exact ((hts u (by simp)).kindOf_head hu).2 hbegins

/-- No digit follows where no number does. -/
theorem Laid.not_isDigit (h : Laid ts cs) (hts : ∀ t ∈ ts, t.Proper IsUnsigned)
    (hnumber : ∀ u ∈ ts.head?, ∀ x, u ≠ .number x) : ∀ c ∈ cs.head?, Decimal.isDigit c = false := by
  intro c hc
  obtain hgap | ⟨u, us, w, rest, rfl, hu, -, -⟩ := h.head hc hts
  · exact not_isDigit_of_isGap hgap
  · have hkind := ((hts u (by simp)).kindOf_head hu).1
    refine not_isDigit_of_kindOf_ne fun hzero => ?_
    cases u with
    | number x => exact hnumber _ rfl x rfl
    | text _ | parameter _ _ | word _ | mark _ => exact nomatch hkind.symm.trans hzero

theorem eq_point (hm : m ∈ marks) (hhead : m.toList.head? = some '.') : m = "." := by
  have hall : ∀ m ∈ marks, m.toList.head? = some '.' → m = "." := by decide
  exact hall m hm hhead

theorem Laid.afterNumber (h : Laid ts cs) (hts : ∀ t ∈ ts, t.Proper IsUnsigned)
    (hchain : ts.IsChain Apart) (hnumber : ∀ u ∈ ts.head?, ∀ x, u ≠ .number x) : AfterNumber cs := by
  refine ⟨h.not_isDigit hts hnumber, ?_⟩
  rintro c rest rfl
  obtain hgap | ⟨u, us, w, rest', rfl, hu, hcs, hus⟩ := h.head rfl hts
  · exact absurd hgap (by decide)
  have hkind := ((hts u (by simp)).kindOf_head hu).1
  cases u with
  | mark m =>
      obtain rfl : m = "." := eq_point (hts (.mark m) (by simp)) (by rw [← show _ = m.toList from hu]; rfl)
      obtain rfl : w = [] := (List.cons.inj (show '.' :: w = ['.'] from hu)).2
      obtain ⟨-, hrest⟩ := List.cons.inj hcs
      refine hus.not_isDigit (fun t ht => hts t (by simp [ht])) ?_ c ?_
      · rintro v hv x rfl
        exact (List.isChain_cons.mp hchain).1 _ hv rfl
      · rw [← show c :: rest = rest' from hrest]
        rfl
  | number _ | text _ | parameter _ _ | word _ =>
      exact nomatch (by decide : Token.kindOf '.' = 4).symm.trans hkind

theorem mem_of_mem_extension? (hc : c ∈ extension? m) : c ∈ ['=', '*', '/'] := by
  unfold extension? at hc
  split_ifs at hc
  · obtain rfl := Option.some.inj hc
    decide
  · obtain rfl := Option.some.inj hc
    decide
  · obtain rfl := Option.some.inj hc
    decide
  · exact nomatch hc

theorem kindOf_extension (hc : c ∈ extension? m) : Token.kindOf c = 4 ∧ isGap c = false := by
  obtain rfl | rfl | rfl := by simpa using mem_of_mem_extension? hc
  · decide
  · decide
  · decide

/-- A written token is read again in front of what may follow it. -/
theorem Token.Proper.starts (ht : t.Proper IsUnsigned) (hw : t.Written w)
    (hts : ∀ u ∈ ts, u.Proper IsUnsigned) (h : Laid ts cs)
    (hname : t.endsName = true → sparesName ts cs = true) (hchain : (t :: ts).IsChain Apart) :
    t.Starts (w ++ cs) cs := by
  obtain ⟨happart, hrest⟩ := List.isChain_cons.mp hchain
  cases t with
  | number x =>
      obtain rfl : w = (Decimal.plain x).toList := hw
      obtain ⟨hliteral, hread⟩ := Decimal.plain_spec ht
      have hafter : AfterNumber cs := by
        refine h.afterNumber hts hrest ?_
        rintro u hu y rfl
        exact happart _ hu
      have hnumber := number_append hliteral hafter
      rw [hread] at hnumber
      exact hnumber
  | text v =>
      obtain ⟨content, hquoted, rfl⟩ := hw
      refine quotation_eq_success.mpr ⟨'\x22', v.toList, content, .inr rfl, hquoted, ?_,
        by rw [String.ofList_toList]⟩
      simp
  | parameter concept tag =>
      obtain rfl : w = (Slot.param concept tag).toText.toList := hw
      exact parameter_eq_success.mpr ⟨ht.1, ht.2, rfl, h.not_isNameChar hts (hname rfl)⟩
  | word v =>
      obtain rfl : w = v.toList := hw
      exact nameChars_eq_success.mpr ⟨ht, rfl, h.not_isNameChar hts (hname rfl)⟩
  | mark m =>
      obtain rfl : w = m.toList := hw
      refine ⟨ht, rfl, fun c hc hhead => ?_⟩
      obtain ⟨hkind, hgap⟩ := kindOf_extension hc
      obtain hgap' | ⟨u, us, w, rest, rfl, hu, -, -⟩ := h.head hhead hts
      · exact nomatch hgap.symm.trans hgap'
      · have hkind' := ((hts u (by simp)).kindOf_head hu).1
        cases u with
        | mark m' =>
            refine happart (.mark m') rfl c hc ?_
            rw [← show _ = m'.toList from hu]
            rfl
        | number _ | text _ | parameter _ _ | word _ => exact nomatch hkind'.symm.trans hkind

/-- What is laid out comes apart into the same tokens. -/
theorem Laid.scans (h : Laid ts cs) (hts : ∀ t ∈ ts, t.Proper IsUnsigned)
    (hchain : ts.IsChain Apart) : Scans cs ts [] := by
  induction h with
  | done hgap => exact .done (Text.skipGap_eq_nil_iff.mpr (List.all_eq_true.mp hgap))
  | @token gap w cs t ts hgap hw hname others ih =>
      have hothers : ∀ u ∈ ts, u.Proper IsUnsigned := fun u hu => hts u (by simp [hu])
      have hstarts := (hts t (by simp)).starts hw hothers others hname hchain
      refine .token ?_ (ih hothers (List.isChain_cons.mp hchain).2)
      rwa [List.append_assoc, Text.skipGap_append (List.all_eq_true.mp hgap), hstarts.skipGap_eq]

/-! ## Rows of operands and signs -/

namespace Token

/-- Whether a token cannot be continued by anything but a number. -/
def Closes : Token → Prop
  | mark m => extension? m = none ∧ m ≠ "."
  | number _ | text _ | parameter _ _ | word _ => True

/-- Whether a token cannot continue a sign. -/
def opens : Token → Bool
  | mark m => m.toList.head? ∉ [some '=', some '*', some '/']
  | number _ | text _ | parameter _ _ | word _ => true

end Token

theorem apart_of_closes (ht : t.Closes) (hu : ∀ x, u ≠ .number x) : Apart t u := by
  cases t with
  | number x =>
      cases u with
      | number y => exact absurd rfl (hu y)
      | text _ | parameter _ _ | word _ | mark _ => trivial
  | text _ | parameter _ _ | word _ => trivial
  | mark m =>
      cases u with
      | mark m' =>
          intro c hc
          rw [ht.1] at hc
          exact nomatch hc
      | number y => exact absurd rfl (hu y)
      | text _ | parameter _ _ | word _ => trivial

theorem apart_of_opens (hm : m ≠ ".") (hu : u.opens = true) : Apart (.mark m) u := by
  cases u with
  | mark m' =>
      intro c hc hhead
      refine of_decide_eq_true hu ?_
      rw [hhead]
      simpa using mem_of_mem_extension? hc
  | number x => exact hm
  | text _ | parameter _ _ | word _ => trivial

/-- Whether tokens begin with one that continues nothing. -/
def Begins (ts : List Token) : Prop := ∃ t rest, ts = t :: rest ∧ t.opens = true

theorem Begins.append (h : Begins ts) (us : List Token) : Begins (ts ++ us) := by
  obtain ⟨t, rest, rfl, ht⟩ := h
  exact ⟨t, rest ++ us, rfl, ht⟩

/-- Tokens of the language that stay apart, and the last of which cannot be continued. -/
structure Row (numbers : Float → Prop) (ts : List Token) : Prop where
  proper : ∀ t ∈ ts, t.Proper numbers
  apart : ts.IsChain Apart
  closes : ∀ t ∈ ts.getLast?, t.Closes

theorem row_nil : Row numbers [] := ⟨by simp, .nil, by simp⟩

theorem row_singleton (ht : t.Proper numbers) (hcloses : t.Closes) : Row numbers [t] :=
  ⟨by simpa using ht, .singleton t, by simpa using hcloses⟩

namespace Row

theorem cons (h : Row numbers ts) (ht : t.Proper numbers) (happart : ∀ u ∈ ts.head?, Apart t u)
    (hne : ts ≠ []) : Row numbers (t :: ts) := by
  refine ⟨by simpa [ht] using h.proper, h.apart.cons happart, ?_⟩
  rw [List.getLast?_cons_of_ne_nil hne]
  exact h.closes

theorem append (hts : Row numbers ts) (hus : Row numbers us)
    (h : ∀ u ∈ us.head?, ∀ x, u ≠ .number x) : Row numbers (ts ++ us) := by
  refine ⟨List.forall_mem_append.mpr ⟨hts.proper, hus.proper⟩,
    List.isChain_append.mpr ⟨hts.apart, hus.apart, fun t ht u hu =>
      apart_of_closes (hts.closes t ht) (h u hu)⟩, ?_⟩
  intro t ht
  rw [List.getLast?_append] at ht
  obtain ht | ⟨-, ht⟩ := Option.or_eq_some_iff.mp ht
  · exact hus.closes t ht
  · exact hts.closes t ht

/-- A sign stays apart from an operand behind it. -/
theorem mark (h : Row numbers ts) (hm : m ∈ marks) (hpoint : m ≠ ".") (hts : Begins ts) :
    Row numbers (.mark m :: ts) := by
  obtain ⟨t, rest, rfl, ht⟩ := hts
  refine h.cons hm (fun u hu => ?_) (by simp)
  obtain rfl := Option.some.inj hu
  exact apart_of_opens hpoint ht

theorem word {w : String} (h : Row numbers ts) (hw : IsWord w.toList) (hne : ts ≠ []) :
    Row numbers (.word w :: ts) :=
  h.cons hw (fun _ _ => trivial) hne

/-- An operator stays apart from the operand behind it. -/
theorem operator (h : Row numbers ts) (hts : Begins ts) (op : Operator) :
    Row numbers (op.tokens ++ ts) := by
  have hne : ts ≠ [] := by
    obtain ⟨t, rest, rfl, -⟩ := hts
    simp
  have hmark {m : String} (hm : m ∈ marks) (hpoint : m ≠ ".") : Row numbers (.mark m :: ts) :=
    h.mark hm hpoint hts
  have hword {w : String} (hw : w.toList ∈ reserved) : Row numbers (.word w :: ts) :=
    h.word (isWord_of_mem_reserved hw) hne
  cases op with
  | or => exact hword (by decide)
  | and => exact hword (by decide)
  | is => exact hword (by decide)
  | isNot => exact (hword (w := "not") (by decide)).word (isWord_of_mem_reserved (by decide)) (by simp)
  | add | sub | mul | pow | div | floorDiv | mod | eq | ne | gt | lt | ge | le =>
      exact hmark (by decide) (by decide)

end Row

theorem head?_tokens (op : Operator) (ts : List Token) :
    ∀ u ∈ (op.tokens ++ ts).head?, ∀ x, u ≠ .number x := by
  cases op <;> simp [Operator.tokens]

theorem row_place (hm : m ∈ [")", "%", "@"]) : Row numbers [.mark m] := by
  have hall : ∀ m ∈ [")", "%", "@"], m ∈ marks ∧ extension? m = none ∧ m ≠ "." := by decide
  exact row_singleton (hall m hm).1 (hall m hm).2

/-- Parentheses around a row of operands, of which there may be none. -/
theorem Row.enclosed (h : Row numbers ts) (hts : ts = [] ∨ Begins ts) :
    Row numbers (.mark "(" :: ts ++ [.mark ")"]) := by
  have hclosed : Row numbers (ts ++ [.mark ")"]) := h.append (row_place (by decide)) (by simp)
  refine hclosed.mark (by decide) (by decide) ?_
  obtain rfl | hts := hts
  · exact ⟨.mark ")", [], rfl, rfl⟩
  · exact hts.append _

/-- A word and its arguments. -/
theorem Row.call {w : String} (h : Row numbers ts) (hts : ts = [] ∨ Begins ts)
    (hw : IsWord w.toList) : Row numbers (.word w :: .mark "(" :: ts ++ [.mark ")"]) :=
  (h.enclosed hts).word hw (by simp)

theorem isWord_name (function : Builtin) : IsWord function.name.toList := by
  cases function <;> exact isWord_iff.mp (by decide)

theorem linkMark_mem (negated : Bool) : linkMark negated ∈ marks ∧ linkMark negated ≠ "." := by
  cases negated <;> decide

/-! ## One layout after another -/

/-- A gap in front of a layout. -/
theorem Laid.behind_gap (h : Laid ts cs) (hgap : gap.all isGap = true) : Laid ts (gap ++ cs) := by
  cases h with
  | done hgap' => exact .done (by rw [List.all_append, hgap, hgap']; rfl)
  | token hgap' hw hname others =>
      rw [← List.append_assoc, ← List.append_assoc]
      exact .token (by rw [List.all_append, hgap, hgap']; rfl) hw hname others

theorem Laid.behind_blank (h : Laid ts cs) : Laid ts (' ' :: cs) := @Laid.behind_gap _ [' '] _ h rfl

theorem sparesName_blank (ts : List Token) (cs : List Char) : sparesName ts (' ' :: cs) = true := by
  simp [sparesName, isGap]

theorem Laid.sparesName_append (h : Laid ts cs) (hts : sparesName ts cs = true)
    (hus : ts = [] → sparesName us s = true) : sparesName (ts ++ us) (cs ++ s) = true := by
  cases h with
  | done hgap =>
      cases cs with
      | nil => exact hus rfl
      | cons c cs => simp_all [sparesName]
  | @token gap w cs t ts hgap hw hname others =>
      generalize gap ++ w ++ cs = cs at hts ⊢
      cases cs with
      | nil => simp_all [sparesName]
      | cons c cs => exact hts

/-- Two layouts make one where no name runs into a letter or a digit. -/
theorem Laid.append (h : Laid ts cs) (h' : Laid us s)
    (hname : ts.getLast?.any Token.endsName = true → sparesName us s = true) :
    Laid (ts ++ us) (cs ++ s) := by
  induction h with
  | done hgap => exact h'.behind_gap hgap
  | @token gap w cs t ts hgap hw hname' others ih =>
      rw [List.append_assoc]
      refine .token hgap hw (fun hends => others.sparesName_append (hname' hends) ?_) (ih ?_)
      · rintro rfl
        exact hname hends
      · intro hlast
        cases ts with
        | nil => exact absurd hlast (by simp)
        | cons u ts => exact hname (by rwa [List.getLast?_cons_cons])

theorem Token.Written.laid (h : t.Written w) : Laid [t] w := by
  have hlaid : Laid [t] ([] ++ w ++ []) := .token rfl h (fun _ => rfl) (.done rfl)
  simpa using hlaid

end Credence.Expr
