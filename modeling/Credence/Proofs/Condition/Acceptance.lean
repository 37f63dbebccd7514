import Credence.Proofs.Condition.Calls
import Credence.Proofs.Condition.Printing
import Credence.Proofs.Condition.Soundness

/-!
# The count of parentheses never decides

A text is gone through twice: character by character, to count its parentheses, and by the grammar.
If the grammar takes the whole text, then the count finds nothing wrong with it, so a text that is
not blank is parsed exactly if the grammar takes it.

More than that, the two readings agree at every place of such a text.  What the grammar sees there is
`Progress`: the place lies in a gap or in a token, it lies in a quotation only if that token is one,
and it lies behind a backslash that hides the next character only if the quotation has it so.  The
count has the same number of open parentheses, is inside the same quotation, and waits for a hidden
character at the same places (`exists_progress`).  The induction is along the tokens: a place lies
before the end of the first one, where `Token.Counted` says what its characters do, or behind it.
-/

namespace Credence.Expr

open Grammar Credence.Parser
open Text (skipGap isGap)

variable {d d' : Nat} {e : Expr} {s w rest left begun : List Char} {t : Token} {ts : List Token}

/-! ## Inside a quotation -/

/-- A part of what is written inside of quotes writes a part of the content, and perhaps a backslash
more. -/
theorem Grammar.Quoted.part {quote : Char} {content : List Char}
    (h : Quoted quote content (begun ++ left)) :
    ∃ content' written, content' <+: content ∧ Quoted quote content' written ∧
      (begun = written ∨ begun = written ++ ['\\']) := by
  generalize hwritten : begun ++ left = written at h
  induction h generalizing begun with
  | nil =>
      obtain ⟨rfl, -⟩ := List.append_eq_nil_iff.mp hwritten
      exact ⟨[], [], List.nil_prefix, .nil, .inl rfl⟩
  | plain hquote hslash others ih =>
      cases begun with
      | nil => exact ⟨[], [], List.nil_prefix, .nil, .inl rfl⟩
      | cons c begun =>
          obtain ⟨rfl, hrest⟩ := List.cons.inj hwritten
          obtain ⟨content', written, hpart, hquoted, hbegun⟩ := ih hrest
          refine ⟨c :: content', c :: written, (List.prefix_cons_inj c).mpr hpart,
            .plain hquote hslash hquoted, ?_⟩
          obtain rfl | rfl := hbegun
          · exact .inl rfl
          · exact .inr rfl
  | hidden others ih =>
      -- the place lies before, behind or right after the backslash
      match begun with
      | [] => exact ⟨[], [], List.nil_prefix, .nil, .inl rfl⟩
      | [c] =>
          obtain ⟨rfl, -⟩ := List.cons.inj hwritten
          exact ⟨[], [], List.nil_prefix, .nil, .inr rfl⟩
      | slash :: c :: begun =>
          obtain ⟨rfl, hbehind⟩ := List.cons.inj hwritten
          obtain ⟨rfl, hrest⟩ := List.cons.inj hbehind
          obtain ⟨content', written, hpart, hquoted, hbegun⟩ := ih hrest
          refine ⟨c :: content', '\\' :: c :: written, (List.prefix_cons_inj c).mpr hpart,
            .hidden hquoted, ?_⟩
          obtain rfl | rfl := hbegun
          · exact .inl rfl
          · exact .inr rfl

/-! ## What the grammar sees at a place -/

/-- `Progress d s ts rest b`: a text `s` comes apart into the tokens `ts`, and `d` parentheses are
open in front of it.  At the place of the text that has `rest` behind it, the tokens are in the state
`b`. -/
inductive Progress : Nat → List Char → List Token → List Char → Brackets → Prop
  /-- In the gap before the next token. -/
  | gap {d : Nat} {gap rest : List Char} {ts : List Token} (hgap : ∀ c ∈ gap, isGap c = true) :
      Progress d (gap ++ rest) ts rest { depth := d }
  /-- Within a token that is no quotation. -/
  | token {d : Nat} {s begun left mid : List Char} {t : Token} {ts : List Token}
      (ht : ∀ v, t ≠ .text v) (first : t.Starts (skipGap s) mid)
      (hs : skipGap s = begun ++ left ++ mid) (hleft : left ≠ []) :
      Progress d s (t :: ts) (left ++ mid) { depth := d }
  /-- Within a quotation, of which a part of the content has been read. -/
  | quoted {d : Nat} {s content written left mid : List Char} {v : String} {ts : List Token}
      {quote : Char} (first : (Token.text v).Starts (skipGap s) mid)
      (hs : skipGap s = quote :: written ++ left ++ mid) (hquoted : Quoted quote content written)
      (hcontent : content <+: v.toList) (hleft : left ≠ []) :
      Progress d s (.text v :: ts) (left ++ mid) { depth := d, quote := some quote }
  /-- Within a quotation, behind a backslash that hides the next character. -/
  | hidden {d : Nat} {s content written left mid : List Char} {v : String} {ts : List Token}
      {quote : Char} (first : (Token.text v).Starts (skipGap s) mid)
      (hs : skipGap s = quote :: written ++ '\\' :: left ++ mid)
      (hquoted : Quoted quote content written) (hcontent : content <+: v.toList)
      (hleft : left ≠ []) :
      Progress d s (.text v :: ts) (left ++ mid)
        { depth := d, quote := some quote, hidden := true }
  /-- Behind the first token. -/
  | later {d d' : Nat} {s mid rest : List Char} {t : Token} {ts : List Token} {b : Brackets}
      (first : t.Starts (skipGap s) mid) (hcount : t.count? d = some d')
      (others : Progress d' mid ts rest b) : Progress d s (t :: ts) rest b

/-- Within a token the count is where the token is. -/
theorem exists_progress_of_begun {mid : List Char} (first : t.Starts (skipGap s) mid)
    (hcounted : t.Counted (begun ++ left)) (hs : skipGap s = begun ++ left ++ mid)
    (hbegun : begun ≠ []) (hleft : left ≠ []) :
    ∃ b, begun.foldlM Brackets.step? { depth := d } = some b ∧
      Progress d s (t :: ts) (left ++ mid) b := by
  generalize hw : begun ++ left = w at hcounted
  cases hcounted with
  | opening | closing =>
      -- one character cannot be divided
      have hlength := congrArg List.length hw
      have hbegun' := List.length_pos_iff.mpr hbegun
      have hleft' := List.length_pos_iff.mpr hleft
      simp only [List.length_append, List.length_singleton] at hlength
      omega
  | other ht _ hall =>
      refine ⟨_, foldlM_of_uncounted fun c hc => hall c ?_, .token ht first hs hleft⟩
      rw [← hw]
      exact List.mem_append_left _ hc
  | @quotation quote content written hquote hquoted =>
      obtain ⟨c, begun, rfl⟩ := List.exists_cons_of_ne_nil hbegun
      obtain ⟨left, last, rfl⟩ := (List.eq_nil_or_concat' left).resolve_left hleft
      obtain ⟨rfl, hbehind⟩ := List.cons.inj hw
      -- the closing quote is still to come
      have hlast : begun ++ left ++ [last] = written ++ [c] := by
        rw [List.append_assoc]
        exact hbehind
      obtain ⟨rfl, hlast⟩ := List.append_inj' hlast rfl
      obtain ⟨content', written, hcontent, hpart, hbegun⟩ := hquoted.part
      have hcontent' : content' <+: (String.ofList content).toList := by
        rwa [String.toList_ofList]
      have hopen : Brackets.step? { depth := d } c = some { depth := d, quote := some c } := by
        obtain rfl | rfl := hquote <;> rfl
      rw [List.foldlM_cons, hopen]
      obtain rfl | rfl := hbegun
      · exact ⟨_, hpart.foldlM_written, .quoted first hs hpart hcontent' hleft⟩
      · refine ⟨{ depth := d, quote := some c, hidden := true }, ?_,
          .hidden first (by simpa using hs) hpart hcontent' hleft⟩
        show (written ++ ['\\']).foldlM Brackets.step? _ = _
        rw [List.foldlM_append, hpart.foldlM_written]
        rfl

/-- At every place of a text the count is where the tokens are. -/
theorem exists_progress (h : Scans s ts []) (hcount : ts.foldlM Token.count? d = some d')
    (hs : s = w ++ rest) :
    ∃ b, w.foldlM Brackets.step? { depth := d } = some b ∧ Progress d s ts rest b := by
  generalize hr : [] = r at h
  induction h generalizing d w with
  | @done s r h =>
      subst hr
      have hgap := Text.skipGap_eq_nil_iff.mp h
      subst hs
      have hbefore : ∀ c ∈ w, isGap c = true := fun c hc => hgap c (List.mem_append_left _ hc)
      exact ⟨_, foldlM_of_uncounted fun c hc => uncounted_of_isGap (hbefore c hc), .gap hbefore⟩
  | @token s mid r t ts first others ih =>
      rw [List.foldlM_cons] at hcount
      obtain ⟨d₁, hfirst, hothers⟩ := Option.bind_eq_some_iff.mp hcount
      obtain ⟨tw, htw, hcounted⟩ := first.counted
      obtain ⟨gap, hgap, hsgap⟩ := Text.exists_isGap s
      have hskipped : gap.foldlM Brackets.step? { depth := d } = some { depth := d } :=
        foldlM_of_uncounted fun c hc => uncounted_of_isGap (hgap c hc)
      have hsplit : w ++ rest = gap ++ (tw ++ mid) := by rw [← hs, ← htw, ← hsgap]
      obtain ⟨more, hgap', rfl⟩ | ⟨begun, rfl, hbehind⟩ := List.append_eq_append_iff.mp hsplit
      · -- the place lies in the gap
        have hbefore : ∀ c ∈ w, isGap c = true := fun c hc => hgap c (by simp [hgap', hc])
        refine ⟨_, foldlM_of_uncounted fun c hc => uncounted_of_isGap (hbefore c hc), ?_⟩
        rw [hs]
        exact .gap hbefore
      · rw [List.foldlM_append, hskipped]
        show ∃ b, begun.foldlM Brackets.step? { depth := d } = some b ∧ _
        obtain ⟨w', rfl, rfl⟩ | ⟨left, rfl, rfl⟩ := List.append_eq_append_iff.mp hbehind
        · -- the place lies behind the token
          obtain ⟨b, hb, hprogress⟩ := ih hothers rfl hr
          rw [List.foldlM_append, hcounted.foldlM hfirst]
          exact ⟨b, hb, .later first hfirst hprogress⟩
        · by_cases hbegun : begun = []
          · -- the place lies right before the token
            subst hbegun
            refine ⟨_, rfl, ?_⟩
            rw [hs, List.append_nil]
            exact .gap hgap
          · by_cases hleft : left = []
            · -- the place lies right behind the token
              subst hleft
              obtain ⟨b, hb, hprogress⟩ := ih hothers (List.nil_append mid).symm hr
              rw [List.append_nil] at hcounted
              rw [hcounted.foldlM hfirst]
              exact ⟨b, hb, .later first hfirst hprogress⟩
            · exact exists_progress_of_begun first hcounted htw hbegun hleft

/-! ## Parsing -/

/-- A text that is not blank is parsed exactly if the grammar alone takes it.  The count finds nothing
wrong with such a text, and at each of its places it is where the tokens are that write the tree. -/
theorem parse_iff_condition {logic : String} (hblank : Text.trimLeft logic.toList ≠ []) {n : Nat}
    (hn : logic.toList.length ≤ n) :
    (∀ e, condition n logic.toList = .success e [] →
      checkBrackets logic.toList = .ok () ∧
      ∃ ts, Spells true 0 e ts ∧ Scans logic.toList ts [] ∧
        ∀ w rest, logic.toList = w ++ rest →
          ∃ b, w.foldlM Brackets.step? {} = some b ∧ Progress 0 logic.toList ts rest b) ∧
    ∀ e, parse logic = .ok e ↔ condition n logic.toList = .success e [] := by
  have haccepted : ∀ {e : Expr} {r : List Char},
      condition logic.toList.length logic.toList = .success e r →
        checkBrackets logic.toList = .ok () := fun h => by
    obtain ⟨ts, hts, hscans⟩ := spells_of_condition h
    exact checkBrackets_eq_ok hscans hts
  rw [condition_eq_of_length_le hn]
  constructor
  · intro e h
    obtain ⟨ts, hts, hscans⟩ := spells_of_condition h
    exact ⟨haccepted h, ts, hts, hscans, fun w rest hs => exists_progress hscans (hts.foldlM 0) hs⟩
  · intro e
    rw [parse_eq_ok]
    constructor
    · rintro ⟨-, -, r, h⟩
      obtain rfl := (toEnd_eq_success.mp h).2
      exact h
    · exact fun h => ⟨hblank, haccepted h, [], h⟩

/-- Parentheses and quotes inside of a quotation inside of parentheses. -/
def quotedMarks : Expr :=
  .binary .mul (.binary .add (.text "a)\"(") (.slot .domain)) (.slot .target)

/-- Behind the backslash one parenthesis is open, and a character is hidden. -/
theorem parse_iff_condition_quotedMarks :
    let logic := " ( \"a)\\\"(\" + % ) * @"
    condition 40 logic.toList = .success quotedMarks [] ∧ checkBrackets logic.toList = .ok () ∧
      ∃ ts, Scans logic.toList ts [] ∧ Progress 0 logic.toList ts "\"(\" + % ) * @".toList
        { depth := 1, quote := some '\x22', hidden := true } := by
  intro logic
  have hwell : quotedMarks.WellFormed := ⟨⟨trivial, trivial⟩, trivial⟩
  have hlaid : Laid (quotedMarks.tokens weaker) logic.toList := by
    refine Eq.mp (congrArg (Laid (quotedMarks.tokens weaker)) ?_) (laid_spaced _)
    decide +kernel
  have hparse : parse logic = .ok quotedMarks :=
    parse_of_laid ((spells_tokens quotedMarks hwell (suits_weaker _)).weaken (Nat.zero_le _))
      (row_tokens weaker quotedMarks hwell) hlaid
  have hblank : Text.trimLeft logic.toList ≠ [] := by decide
  have hlength : logic.toList.length ≤ 40 := by decide
  obtain ⟨hagree, hiff⟩ := parse_iff_condition hblank hlength
  have hcondition := (hiff quotedMarks).mp hparse
  obtain ⟨hbrackets, ts, -, hscans, hplaces⟩ := hagree quotedMarks hcondition
  obtain ⟨b, hb, hprogress⟩ := hplaces " ( \"a)\\".toList "\"(\" + % ) * @".toList (by decide)
  obtain rfl := Option.some.inj (hb.symm.trans
    (by decide : _ = some { depth := 1, quote := some '\x22', hidden := true }))
  exact ⟨hcondition, hbrackets, ts, hscans, hprogress⟩

end Credence.Expr
