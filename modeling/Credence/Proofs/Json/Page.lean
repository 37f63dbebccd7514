import Credence.Proofs.Json.Numeral
import Credence.Proofs.Json.Text

/-!
# Documents read back

A document that was written page by page is read again as its `sketch`, the draft without faults
that has the same form.  This holds of every document whose numbers read back.

The reader is given a number of calls.  `calls` counts those that a document takes, and there are at
most two for every character that it is written with.
-/

namespace Credence.Json

open Text (skipGap isGap skipGap_cons skipGap_append skipGap_eq_nil_iff skipGap_eq_cons
  skipGap_append_of_cons isGap_of_isDigit)

variable {n depth : Nat} {c : Char} {cs ahead rest rest' after : List Char}

/-! ## What a document is read as -/

mutual

/-- The draft that a document is read as at a depth. -/
def sketch : Json → Nat → Draft
  | null, _ => .null
  | bool b, _ => .bool b
  | integer n, _ => numeralDraft (integerText n)
  | number x, _ => numeralDraft (numberText x)
  | text s, _ => .text (some s)
  | list items, depth => .list depth (sketchItems items (depth + 1)) true
  | object fields, depth => .object depth (sketchFields fields (depth + 1)) true

/-- The drafts of items. -/
def sketchItems : List Json → Nat → List Draft
  | [], _ => []
  | item :: rest, depth => sketch item depth :: sketchItems rest depth

/-- The drafts of fields. -/
def sketchFields : List (String × Json) → Nat → List (Option String × Draft)
  | [], _ => []
  | (key, value) :: rest, depth => (some key, sketch value depth) :: sketchFields rest depth

end

mutual

/-- The numbers in a document. -/
def numbers : Json → List Float
  | number x => [x]
  | list items => itemNumbers items
  | object fields => fieldNumbers fields
  | null | bool _ | integer _ | text _ => []

/-- The numbers in items. -/
def itemNumbers : List Json → List Float
  | [] => []
  | item :: rest => numbers item ++ itemNumbers rest

/-- The numbers in fields. -/
def fieldNumbers : List (String × Json) → List Float
  | [] => []
  | (_, value) :: rest => numbers value ++ fieldNumbers rest

end

mutual

/-- The number of calls that reading a document takes. -/
def calls : Json → Nat
  | list items => itemCalls items + 1
  | object fields => fieldCalls fields + 1
  | null | bool _ | integer _ | number _ | text _ => 1

/-- The number of calls that reading items takes. -/
def itemCalls : List Json → Nat
  | [] => 0
  | item :: rest => calls item + itemCalls rest + 1

/-- The number of calls that reading fields takes. -/
def fieldCalls : List (String × Json) → Nat
  | [] => 0
  | (_, value) :: rest => calls value + fieldCalls rest + 1

end

/-! ## One step of the reader -/

theorem readAt_word (word : List Char) (d : Draft)
    (hd : (word, d) ∈ [("null".toList, .null), ("true".toList, .bool true),
      ("false".toList, .bool false)])
    (hahead : skipGap ahead = word ++ after) :
    readAt (n + 1) depth ahead = (d, some after) := by
  simp only [List.mem_cons, Prod.mk.injEq, List.not_mem_nil, or_false] at hd
  rcases hd with ⟨rfl, rfl⟩ | ⟨rfl, rfl⟩ | ⟨rfl, rfl⟩ <;>
    (unfold readAt; rw [hahead]; rfl)

theorem readAt_text {s : String} (hahead : skipGap ahead = quoted s ++ after) :
    readAt (n + 1) depth ahead = (.text (some s), some after) := by
  have hquoted : quoted s ++ after = '\x22' :: (s.toList.flatMap escape ++ '\x22' :: after) := by
    simp [quoted]
  obtain ⟨ps, hpieces, hspelled⟩ := pieces_text s
    (n := (s.toList.flatMap escape ++ '\x22' :: after).length + 1)
    (by rw [List.length_append]; omega) after
  unfold readAt
  rw [hahead, hquoted]
  dsimp only
  rw [if_neg (by decide), if_neg (by decide), if_pos rfl, hpieces]
  dsimp only
  rw [hspelled]

theorem readAt_emptyList (hahead : skipGap ahead = '[' :: rest)
    (hrest : skipGap rest = ']' :: after) :
    readAt (n + 1) depth ahead = (.list depth [] true, some after) := by
  unfold readAt
  rw [hahead]
  dsimp only
  rw [if_pos rfl, hrest]
  rfl

theorem readAt_list (hahead : skipGap ahead = '[' :: rest) (hrest : skipGap rest = c :: cs)
    (hc : c ≠ ']') {items : List Draft}
    (hitems : readItems n (depth + 1) (c :: cs) = (items, some after)) :
    readAt (n + 1) depth ahead = (.list depth items true, some after) := by
  unfold readAt
  rw [hahead]
  dsimp only
  rw [if_pos rfl, hrest]
  split
  · rename_i heq
    exact absurd (List.cons.inj heq).1 hc
  · rw [hitems]
    rfl

theorem readAt_emptyObject (hahead : skipGap ahead = '\x7b' :: rest)
    (hrest : skipGap rest = '\x7d' :: after) :
    readAt (n + 1) depth ahead = (.object depth [] true, some after) := by
  unfold readAt
  rw [hahead]
  dsimp only
  rw [if_neg (by decide), if_pos rfl, hrest]
  rfl

theorem readAt_object (hahead : skipGap ahead = '\x7b' :: rest)
    (hrest : skipGap rest = '\x22' :: cs) {fields : List (Option String × Draft)}
    (hfields : readFields n (depth + 1) ('\x22' :: cs) = (fields, some after)) :
    readAt (n + 1) depth ahead = (.object depth fields true, some after) := by
  unfold readAt
  rw [hahead]
  dsimp only
  rw [if_neg (by decide), if_pos rfl, hrest]
  split
  · rename_i heq
    exact absurd (List.cons.inj heq).1 (by decide)
  · rw [hfields]
    rfl

variable {item value : Draft}

theorem readItems_last (hitem : readAt n depth ahead = (item, some rest))
    (hrest : skipGap rest = ']' :: after) :
    readItems (n + 1) depth ahead = ([item], some after) := by
  unfold readItems
  rw [hitem]
  dsimp only
  rw [hrest]
  rfl

theorem readItems_more (hitem : readAt n depth ahead = (item, some rest))
    (hrest : skipGap rest = ',' :: rest') {items : List Draft}
    (hmore : readItems n depth rest' = (items, some after)) :
    readItems (n + 1) depth ahead = (item :: items, some after) := by
  calc readItems (n + 1) depth ahead
      = (item :: (readItems n depth rest').1, (readItems n depth rest').2) := by
        conv => lhs; unfold readItems
        rw [hitem]
        dsimp only
        rw [hrest]
        rfl
    _ = (item :: items, some after) := by rw [hmore]

/-- Reads what follows a field. -/
def afterField (n depth : Nat) (field : Option String × Draft) (ahead : List Char) :
    List (Option String × Draft) × Option (List Char) :=
  match skipGap ahead with
  | ',' :: rest =>
    let (more, after) := readFields n depth rest
    (field :: more, after)
  | '\x7d' :: rest => ([field], some rest)
  | _ => ([field], none)

theorem readFields_field {key : String} {text : List Char}
    (hahead : skipGap ahead = quoted key ++ ':' :: text)
    (hvalue : readAt n depth text = (value, some rest)) :
    readFields (n + 1) depth ahead = afterField n depth (some key, value) rest := by
  have hquoted : quoted key ++ ':' :: text =
      '\x22' :: (key.toList.flatMap escape ++ '\x22' :: ':' :: text) := by
    simp [quoted]
  obtain ⟨ps, hpieces, hspelled⟩ := pieces_text key
    (n := (key.toList.flatMap escape ++ '\x22' :: ':' :: text).length + 1)
    (by rw [List.length_append]; omega) (':' :: text)
  unfold readFields
  rw [hahead, hquoted]
  split
  · rename_i heq
    obtain ⟨-, rfl⟩ := List.cons.inj heq
    rw [hpieces]
    dsimp only
    rw [skipGap_cons (by decide)]
    split
    · rename_i heq
      obtain ⟨-, rfl⟩ := List.cons.inj heq
      rw [hvalue, hspelled]
      rfl
    · rename_i hother
      exact absurd rfl (hother text)
  · rename_i hother
    exact absurd rfl (hother _)

theorem afterField_last {field : Option String × Draft} (hrest : skipGap rest = '\x7d' :: after) :
    afterField n depth field rest = ([field], some after) := by
  unfold afterField
  rw [hrest]
  rfl

theorem afterField_more {field : Option String × Draft} (hrest : skipGap rest = ',' :: rest')
    {fields : List (Option String × Draft)}
    (hmore : readFields n depth rest' = (fields, some after)) :
    afterField n depth field rest = (field :: fields, some after) := by
  calc afterField n depth field rest
      = (field :: (readFields n depth rest').1, (readFields n depth rest').2) := by
        unfold afterField
        rw [hrest]
        rfl
    _ = (field :: fields, some after) := by rw [hmore]

/-! ## A whole document -/

theorem skipGap_newLine (depth : Nat) (after : List Char) :
    skipGap (newLine depth ++ after) = skipGap after := by
  refine skipGap_append (fun c hc => ?_) after
  rcases List.mem_cons.mp hc with rfl | hc
  · decide
  · rw [List.eq_of_mem_replicate hc]
    decide

theorem ends_newLine (depth : Nat) (after : List Char) : Ends (newLine depth ++ after) :=
  ends_cons (by decide)

/-- The documents whose numbers stand alone. -/
def Readable (j : Json) : Prop := ∀ x ∈ j.numbers, Alone (numberText x)

theorem ends_pageItemsOnto (items : List Json) (indent outer : Nat) (after : List Char) :
    Ends (pageItemsOnto items false indent (newLine outer ++ after)) := by
  cases items with
  | nil => exact ends_newLine outer after
  | cons item rest => exact ends_cons (by decide)

theorem ends_pageFieldsOnto (fields : List (String × Json)) (indent outer : Nat)
    (after : List Char) : Ends (pageFieldsOnto fields false indent (newLine outer ++ after)) := by
  cases fields with
  | nil => exact ends_newLine outer after
  | cons field rest => exact ends_cons (by decide)

/-- No document begins like the end of a list. -/
theorem Readable.skipGap_eq_cons {j : Json} (hj : j.Readable) (indent : Nat) (after : List Char) :
    ∃ c cs, skipGap (j.pageOnto indent after) = c :: cs ∧ c ≠ ']' := by
  cases j with
  | null => exact ⟨'n', _, rfl, by decide⟩
  | bool b =>
      cases b with
      | false => exact ⟨'f', _, rfl, by decide⟩
      | true => exact ⟨'t', _, rfl, by decide⟩
  | integer n => exact (alone_integerText n).skipGap_eq_cons after
  | number x => exact (hj x List.mem_cons_self).skipGap_eq_cons after
  | text s => exact ⟨'\x22', _, rfl, by decide⟩
  | list items =>
      cases items with
      | nil => exact ⟨'[', _, rfl, by decide⟩
      | cons item rest => exact ⟨'[', _, rfl, by decide⟩
  | object fields =>
      cases fields with
      | nil => exact ⟨'\x7b', _, rfl, by decide⟩
      | cons field rest => exact ⟨'\x7b', _, rfl, by decide⟩

theorem skipGap_blank (after : List Char) : skipGap (' ' :: after) = skipGap after := rfl

theorem skipGap_quoted (key : String) (after : List Char) :
    skipGap (quoted key ++ after) = quoted key ++ after := skipGap_cons (by decide) _

mutual

/-- A document is read as its sketch, whatever it stands in front of. -/
theorem readAt_pageOnto : ∀ (j : Json) (_ : j.Readable) (n depth indent : Nat)
    (ahead after : List Char) (_ : Ends after)
    (_ : skipGap ahead = skipGap (j.pageOnto indent after)) (_ : j.calls ≤ n),
    ∃ rest, readAt n depth ahead = (j.sketch depth, some rest) ∧ skipGap rest = skipGap after
  | null, _, n + 1, _, _, _, after, _, hahead, _ =>
      ⟨after, readAt_word "null".toList .null (by simp) hahead, rfl⟩
  | bool false, _, n + 1, _, _, _, after, _, hahead, _ =>
      ⟨after, readAt_word "false".toList (.bool false) (by simp) hahead, rfl⟩
  | bool true, _, n + 1, _, _, _, after, _, hahead, _ =>
      ⟨after, readAt_word "true".toList (.bool true) (by simp) hahead, rfl⟩
  | integer i, _, n + 1, _, _, _, _, hafter, hahead, _ => (alone_integerText i).readAt hafter hahead
  | number x, hj, n + 1, _, _, _, _, hafter, hahead, _ =>
      (hj x List.mem_cons_self).readAt hafter hahead
  | text s, _, n + 1, _, _, _, after, _, hahead, _ => ⟨after, readAt_text hahead, rfl⟩
  | list [], _, n + 1, _, _, _, after, _, hahead, _ =>
      ⟨after, readAt_emptyList hahead (skipGap_cons (by decide) after), rfl⟩
  | list (item :: items), hj, n + 1, depth, indent, ahead, after, _, hahead, hn => by
      obtain ⟨hitem, hitems⟩ := List.forall_mem_append.mp hj
      obtain ⟨m, rfl⟩ := Nat.exists_eq_add_one_of_ne_zero
        (show n ≠ 0 by unfold calls itemCalls at hn; omega)
      obtain ⟨c, cs, hcs, hc⟩ := Readable.skipGap_eq_cons hitem (indent + 1)
        (pageItemsOnto items false (indent + 1) (newLine indent ++ ']' :: after))
      obtain ⟨rest, hread, hrest⟩ := readAt_pageOnto item hitem m (depth + 1) (indent + 1) (c :: cs)
        _ (ends_pageItemsOnto items (indent + 1) indent (']' :: after))
        (by rw [hcs, skipGap_cons (skipGap_eq_cons hcs).1])
        (by unfold calls itemCalls at hn; omega)
      have hmore := readItems_pageItemsOnto items hitems m (depth + 1) (indent + 1) indent _ _ after
        _ hread hrest (by unfold calls itemCalls at hn; omega)
      exact ⟨after, readAt_list hahead ((skipGap_newLine _ _).trans hcs) hc hmore, rfl⟩
  | object [], _, n + 1, _, _, _, after, _, hahead, _ =>
      ⟨after, readAt_emptyObject hahead (skipGap_cons (by decide) after), rfl⟩
  | object ((key, value) :: fields), hj, n + 1, depth, indent, ahead, after, _, hahead, hn => by
      obtain ⟨hvalue, hfields⟩ := List.forall_mem_append.mp hj
      obtain ⟨m, rfl⟩ := Nat.exists_eq_add_one_of_ne_zero
        (show n ≠ 0 by unfold calls fieldCalls at hn; omega)
      obtain ⟨rest, hread, hrest⟩ := readAt_pageOnto value hvalue m (depth + 1) (indent + 1) _ _
        (ends_pageFieldsOnto fields (indent + 1) indent ('\x7d' :: after)) (skipGap_blank _)
        (by unfold calls fieldCalls at hn; omega)
      have hmore := readFields_pageFieldsOnto fields hfields m (depth + 1) (indent + 1) indent rest
        after (some key, value.sketch (depth + 1)) hrest (by unfold calls fieldCalls at hn; omega)
      refine ⟨after, ?_, rfl⟩
      refine readAt_object hahead ((skipGap_newLine _ _).trans (skipGap_quoted key _)) ?_
      exact (readFields_field (skipGap_quoted key _) hread).trans hmore

/-- Items are read up to the end of their list. -/
theorem readItems_pageItemsOnto : ∀ (items : List Json)
    (_ : ∀ x ∈ itemNumbers items, Alone (numberText x)) (n depth indent outer : Nat)
    (ahead rest after : List Char) (item : Draft)
    (_ : readAt n depth ahead = (item, some rest))
    (_ : skipGap rest =
      skipGap (pageItemsOnto items false indent (newLine outer ++ ']' :: after)))
    (_ : itemCalls items ≤ n),
    readItems (n + 1) depth ahead = (item :: sketchItems items depth, some after)
  | [], _, n, depth, indent, outer, ahead, rest, after, item, hitem, hrest, _ => by
      rw [pageItemsOnto, skipGap_newLine] at hrest
      exact readItems_last hitem hrest
  | next :: items, hnumbers, n + 1, depth, indent, outer, ahead, rest, after, item, hitem, hrest,
      hn => by
      obtain ⟨hnext, hitems⟩ := List.forall_mem_append.mp hnumbers
      obtain ⟨rest', hread, hrest'⟩ := readAt_pageOnto next hnext n depth indent _ _
        (ends_pageItemsOnto items indent outer (']' :: after)) (skipGap_newLine indent _)
        (by unfold itemCalls at hn; omega)
      exact readItems_more hitem hrest (readItems_pageItemsOnto items hitems n depth indent outer _ _
        after _ hread hrest' (by unfold itemCalls at hn; omega))

/-- Fields are read up to the end of their object. -/
theorem readFields_pageFieldsOnto : ∀ (fields : List (String × Json))
    (_ : ∀ x ∈ fieldNumbers fields, Alone (numberText x)) (n depth indent outer : Nat)
    (rest after : List Char) (field : Option String × Draft)
    (_ : skipGap rest =
      skipGap (pageFieldsOnto fields false indent (newLine outer ++ '\x7d' :: after)))
    (_ : fieldCalls fields ≤ n),
    afterField n depth field rest = (field :: sketchFields fields depth, some after)
  | [], _, n, depth, indent, outer, rest, after, field, hrest, _ => by
      rw [pageFieldsOnto, skipGap_newLine] at hrest
      exact afterField_last hrest
  | (key, value) :: fields, hnumbers, n + 1, depth, indent, outer, rest, after, field, hrest, hn => by
      obtain ⟨hvalue, hfields⟩ := List.forall_mem_append.mp hnumbers
      obtain ⟨rest', hread, hrest'⟩ := readAt_pageOnto value hvalue n depth indent _ _
        (ends_pageFieldsOnto fields indent outer ('\x7d' :: after)) (skipGap_blank _)
        (by unfold fieldCalls at hn; omega)
      have hmore := readFields_pageFieldsOnto fields hfields n depth indent outer rest' after
        (some key, value.sketch depth) hrest' (by unfold fieldCalls at hn; omega)
      refine afterField_more hrest ((readFields_field ?_ hread).trans hmore)
      exact (skipGap_newLine indent _).trans (skipGap_quoted key _)

end

/-! ## The number of calls -/

theorem Alone.length_pos {text : List Char} (h : Alone text) : 0 < text.length := by
  obtain ⟨c, cs, hcs, -⟩ := h.skipGap_eq_cons []
  cases text with
  | nil => nomatch hcs
  | cons d rest => exact Nat.zero_lt_succ _

theorem length_newLine_pos (depth : Nat) : 0 < (newLine depth).length := Nat.zero_lt_succ _

mutual

/-- A document takes at most two calls for every character that it is written with. -/
theorem calls_le_pageOnto : ∀ (j : Json) (_ : j.Readable) (indent : Nat) (after : List Char),
    j.calls + 2 * after.length ≤ 2 * (j.pageOnto indent after).length
  | null, _, _, after => by
      show 1 + 2 * after.length ≤ 2 * ("null".toList ++ after).length
      rw [List.length_append]
      have hword : "null".toList.length = 4 := rfl
      omega
  | bool b, _, _, after => by
      show 1 + 2 * after.length ≤ 2 * ((if b then "true" else "false").toList ++ after).length
      rw [List.length_append]
      have hword : 0 < (if b then "true" else "false").toList.length := by cases b <;> decide
      omega
  | integer i, _, _, after => by
      show 1 + 2 * after.length ≤ 2 * (integerText i ++ after).length
      rw [List.length_append]
      have hpos := (alone_integerText i).length_pos
      omega
  | number x, hj, _, after => by
      show 1 + 2 * after.length ≤ 2 * (numberText x ++ after).length
      rw [List.length_append]
      have hpos := (hj x List.mem_cons_self).length_pos
      omega
  | text s, _, _, after => by
      show 1 + 2 * after.length ≤ 2 * (quoted s ++ after).length
      rw [List.length_append]
      have hpos : 0 < (quoted s).length := Nat.zero_lt_succ _
      omega
  | list [], _, _, after => by
      show 1 + 2 * after.length ≤ 2 * (after.length + 1 + 1)
      omega
  | list (item :: items), hj, indent, after => by
      have hitems := itemCalls_le_pageItemsOnto (item :: items) hj true (indent + 1)
        (newLine indent ++ ']' :: after)
      rw [List.length_append, List.length_cons] at hitems
      rw [calls, pageOnto, List.length_cons]
      omega
  | object [], _, _, after => by
      show 1 + 2 * after.length ≤ 2 * (after.length + 1 + 1)
      omega
  | object (field :: fields), hj, indent, after => by
      have hfields := fieldCalls_le_pageFieldsOnto (field :: fields) hj true (indent + 1)
        (newLine indent ++ '\x7d' :: after)
      rw [List.length_append, List.length_cons] at hfields
      rw [calls, pageOnto, List.length_cons]
      omega

theorem itemCalls_le_pageItemsOnto : ∀ (items : List Json)
    (_ : ∀ x ∈ itemNumbers items, Alone (numberText x)) (first : Bool) (indent : Nat)
    (after : List Char),
    itemCalls items + 2 * after.length ≤ 2 * (pageItemsOnto items first indent after).length
  | [], _, _, _, after => by
      rw [itemCalls, pageItemsOnto]
      omega
  | item :: items, hnumbers, first, indent, after => by
      obtain ⟨hitem, hitems⟩ := List.forall_mem_append.mp hnumbers
      have hrest := itemCalls_le_pageItemsOnto items hitems false indent after
      have hfirst := calls_le_pageOnto item hitem indent (pageItemsOnto items false indent after)
      have hline := length_newLine_pos indent
      rw [itemCalls, pageItemsOnto, List.length_append, List.length_append]
      omega

theorem fieldCalls_le_pageFieldsOnto : ∀ (fields : List (String × Json))
    (_ : ∀ x ∈ fieldNumbers fields, Alone (numberText x)) (first : Bool) (indent : Nat)
    (after : List Char),
    fieldCalls fields + 2 * after.length ≤ 2 * (pageFieldsOnto fields first indent after).length
  | [], _, _, _, after => by
      rw [fieldCalls, pageFieldsOnto]
      omega
  | (key, value) :: fields, hnumbers, first, indent, after => by
      obtain ⟨hvalue, hfields⟩ := List.forall_mem_append.mp hnumbers
      have hrest := fieldCalls_le_pageFieldsOnto fields hfields false indent after
      have hfirst := calls_le_pageOnto value hvalue indent (pageFieldsOnto fields false indent after)
      have hline := length_newLine_pos indent
      rw [fieldCalls, pageFieldsOnto, List.length_append, List.length_append, List.length_append,
        List.length_cons, List.length_cons]
      omega

end

/-- A written document is read as its sketch, with nothing behind it. -/
theorem draft_page {j : Json} (hj : j.Readable) : draft j.page = (j.sketch 1, true) := by
  have hcalls := calls_le_pageOnto j hj 0 []
  obtain ⟨rest, hread, hrest⟩ := readAt_pageOnto j hj (2 * (j.pageOnto 0 []).length + 1) 1 0
    (j.pageOnto 0 []) [] ends_nil rfl (by omega)
  unfold draft page
  rw [String.toList_ofList]
  dsimp only
  rw [hread]
  dsimp only
  rw [hrest]
  rfl

/-- Decoding a written document is decoding its sketch. -/
theorem decode_page {α : Type} (decoder : Decoder α) {j : Json} (hj : j.Readable) :
    decode decoder j.page = decoder (j.sketch 1) := by
  unfold decode
  rw [draft_page hj]
  show (do Draft.atEnd true (← decoder (j.sketch 1))) = decoder (j.sketch 1)
  cases decoder (j.sketch 1) <;> rfl

end Credence.Json
