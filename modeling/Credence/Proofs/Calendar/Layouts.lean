import Credence.Proofs.Calendar.DateText
import Credence.Value.Basic

/-!
# Written dates are read in their own layout only

A date is read in the first of several layouts that takes the text.  The layouts have the same
fields, two of them have the same separator, and years may be short, long or signed, so it is not
plain that an earlier layout leaves the dates of a later one alone.  It does, and the order of the
layouts does not even matter: what is written in one layout is read back in that layout and refused
by every other (`Layout.read?_write`).

Layouts with different separators part at the first separator.  Layouts with different orders of
fields part where one of them looks for a day and the text has a year: a year begins with a sign, or
it has more digits than a day may have and leaves a digit over (`starts_of_smallField?_yearText`).
-/

namespace Credence

namespace Calendar

open Decimal

variable {width n : Nat} {digits after rest : List Char} {separator : Char}

/-! ## A year in the place of a day -/

theorem le_length_padded (width n : Nat) : width ≤ (padded width n).length := by
  show width ≤ (List.replicate (width - (digitsOf n).length) '0' ++ digitsOf n).length
  rw [List.length_append, List.length_replicate]
  omega

/-- Of more digits than are wanted some are left over. -/
theorem starts_of_integer?_long (hdigits : ∀ c ∈ digits, isDigit c = true)
    (hlong : width < digits.length) (h : integer? width (digits ++ after) = some (n, rest)) :
    ∃ c more, rest = c :: more ∧ isDigit c = true := by
  have htake : ((digits ++ after).take width).takeWhile isDigit = digits.take width := by
    rw [List.take_append_of_le_length hlong.le, List.takeWhile_eq_self_iff]
    exact fun c hc => hdigits c ((List.take_sublist width digits).mem hc)
  unfold integer? at h
  rw [htake] at h
  dsimp only at h
  split at h
  · nomatch h
  · obtain ⟨-, rfl⟩ := Prod.mk.inj (Option.some.inj h)
    rw [List.length_take, Nat.min_eq_left hlong.le, List.drop_append_of_le_length hlong.le]
    cases hdrop : digits.drop width with
    | nil => exact absurd (List.drop_eq_nil_iff.mp hdrop) (by omega)
    | cons c more =>
        exact ⟨c, more ++ after, rfl,
          hdigits c ((List.drop_sublist width digits).mem (hdrop ▸ List.mem_cons_self))⟩

/-- No day or month begins with a sign. -/
theorem smallField?_sign {c : Char} (hblank : Text.isBlank c = false) (hdigit : isDigit c = false)
    (text : List Char) : smallField? (c :: text) = none := by
  have htrim : Text.trimLeft (c :: text) = c :: text :=
    List.dropWhile_cons_of_neg (by simp [hblank])
  unfold smallField? integer?
  rw [htrim, List.take_succ_cons, List.takeWhile_cons_of_neg (by simp [hdigit])]
  rfl

/-- Where a day is looked for and a year stands, a digit is left over if anything is read. -/
theorem starts_of_smallField?_yearText {year : Int}
    (h : smallField? (yearText year ++ after) = some (n, rest)) :
    ∃ c more, rest = c :: more ∧ isDigit c = true := by
  unfold yearText at h
  split at h
  · obtain ⟨hdigits, -, -⟩ := padded_spec 4 year.toNat
    have hlong := le_length_padded 4 year.toNat
    unfold smallField? at h
    rw [trimLeft_padded] at h
    exact starts_of_integer?_long hdigits (by omega) h
  · rw [List.cons_append] at h
    split at h
    · rw [smallField?_sign (by decide) (by decide)] at h
      nomatch h
    · rw [smallField?_sign (by decide) (by decide)] at h
      nomatch h

/-! ## Layouts -/

@[simp] theorem mark?_self (c : Char) (text : List Char) : mark? c (c :: text) = some text :=
  if_pos rfl

theorem mark?_of_ne {c c' : Char} (h : c' ≠ c) (text : List Char) : mark? c (c' :: text) = none :=
  if_neg h

theorem write_dayFirst (separator : Char) (d : Date) :
    Layout.write ⟨.dayFirst, separator⟩ d = padded 2 d.day ++
      separator :: (padded 2 d.month ++ separator :: yearText d.year) := by
  simp [Layout.write]

theorem write_yearFirst (separator : Char) (d : Date) :
    Layout.write ⟨.yearFirst, separator⟩ d = yearText d.year ++
      separator :: (padded 2 d.month ++ separator :: padded 2 d.day) := by
  simp [Layout.write]

/-- A written date is read in its own layout. -/
theorem Layout.read?_write_self {l : Layout} (hseparator : isDigit l.separator = false)
    (d : Date) : l.read? (l.write d) = some d := by
  obtain ⟨hmonth, hday⟩ := d.small_fields
  obtain ⟨order, separator⟩ := l
  have hmark : ∀ text, Undigited (separator :: text) := fun _ => undigited_cons hseparator
  cases order with
  | dayFirst =>
      have hyear := year?_yearText d.year undigited_nil
      rw [List.append_nil] at hyear
      rw [write_dayFirst, read?]
      simp [smallField?_padded hday (hmark _), smallField?_padded hmonth (hmark _), hyear]
  | yearFirst =>
      have hlast := smallField?_padded hday undigited_nil
      rw [List.append_nil] at hlast
      rw [write_yearFirst, read?]
      simp [year?_yearText d.year (hmark _), smallField?_padded hmonth (hmark _), hlast]

/-- A day is short enough to be taken for a year. -/
theorem year?_day (hseparator : isDigit separator = false) (d : Date) (text : List Char) :
    year? (padded 2 d.day ++ separator :: text) = some ((d.day : Int), separator :: text) :=
  year?_padded (by omega) (by omega) d.small_fields.2 (undigited_cons hseparator)

/-- A layout that looks for the day first refuses a text that begins with a year. -/
theorem Layout.read?_dayFirst_yearText (hseparator : isDigit separator = false) (year : Int)
    (after : List Char) : read? ⟨.dayFirst, separator⟩ (yearText year ++ after) = none := by
  rw [read?]
  cases hfield : smallField? (yearText year ++ after) with
  | none => rfl
  | some field =>
      obtain ⟨c, more, hrest, hdigit⟩ := starts_of_smallField?_yearText hfield
      have hne : c ≠ separator := by
        rintro rfl
        rw [hdigit] at hseparator
        nomatch hseparator
      simp [hrest, mark?_of_ne hne]

/-- A layout that looks for the year first refuses a text that ends with a year. -/
theorem Layout.read?_yearFirst_write_dayFirst (hseparator : isDigit separator = false) (d : Date) :
    read? ⟨.yearFirst, separator⟩ (write ⟨.dayFirst, separator⟩ d) = none := by
  have hmonth := d.small_fields.1
  have hmark : ∀ text, Undigited (separator :: text) := fun _ => undigited_cons hseparator
  rw [write_dayFirst, read?]
  cases hfield : smallField? (yearText d.year) with
  | none => simp [year?_day hseparator, smallField?_padded hmonth (hmark _), hfield]
  | some field =>
      rw [← List.append_nil (yearText d.year)] at hfield
      obtain ⟨c, more, hrest, -⟩ := starts_of_smallField?_yearText hfield
      rw [List.append_nil] at hfield
      simp [year?_day hseparator, smallField?_padded hmonth (hmark _), hfield, hrest]

theorem Layout.read?_write_of_separator_ne {l m : Layout} (hl : isDigit l.separator = false)
    (hm : isDigit m.separator = false) (hne : l.separator ≠ m.separator) (d : Date) :
    m.read? (l.write d) = none := by
  have hday := d.small_fields.2
  obtain ⟨lorder, lseparator⟩ := l
  obtain ⟨morder, mseparator⟩ := m
  have hmark : ∀ text, Undigited (lseparator :: text) := fun _ => undigited_cons hl
  cases lorder with
  | dayFirst =>
      rw [write_dayFirst, read?]
      cases morder with
      | dayFirst => simp [smallField?_padded hday (hmark _), mark?_of_ne hne]
      | yearFirst => simp [year?_day hl, mark?_of_ne hne]
  | yearFirst =>
      rw [write_yearFirst]
      cases morder with
      | dayFirst => exact read?_dayFirst_yearText hm d.year _
      | yearFirst => simp [read?, year?_yearText d.year (hmark _), mark?_of_ne hne]

/-- What is written in one layout is read in that layout and refused by every other. -/
theorem Layout.read?_write {l m : Layout} (hl : isDigit l.separator = false)
    (hm : isDigit m.separator = false) (d : Date) :
    m.read? (l.write d) = if m = l then some d else none := by
  by_cases hlm : m = l
  · rw [if_pos hlm, hlm, read?_write_self hl]
  · rw [if_neg hlm]
    by_cases hseparator : l.separator = m.separator
    · obtain ⟨lorder, separator⟩ := l
      obtain ⟨morder, _⟩ := m
      obtain rfl : separator = _ := hseparator
      cases lorder with
      | dayFirst => cases morder with
        | dayFirst => exact absurd rfl hlm
        | yearFirst => exact read?_yearFirst_write_dayFirst hl d
      | yearFirst => cases morder with
        | dayFirst =>
            rw [write_yearFirst]
            exact read?_dayFirst_yearText hm d.year _
        | yearFirst => exact absurd rfl hlm
    · exact read?_write_of_separator_ne hl hm hseparator d

/-! ## Reading in the first layout that fits -/

theorem isBlank_padded {c : Char} (hc : c ∈ padded width n) : Text.isBlank c = false :=
  Text.isBlank_of_isDigit ((padded_spec width n).1 c hc)

theorem isBlank_yearText {year : Int} {c : Char} (hc : c ∈ yearText year) :
    Text.isBlank c = false := by
  unfold yearText at hc
  split at hc
  · exact isBlank_padded hc
  · rcases List.mem_cons.mp hc with rfl | hc
    · split <;> decide
    · exact isBlank_padded hc

/-- There is nothing to trim off a written date. -/
theorem Layout.isBlank_write {l : Layout} (hseparator : Text.isBlank l.separator = false)
    (d : Date) : ∀ c ∈ l.write d, Text.isBlank c = false := by
  obtain ⟨order, separator⟩ := l
  intro c hc
  cases order with
  | dayFirst =>
      simp only [write_dayFirst, List.mem_append, List.mem_cons] at hc
      rcases hc with hc | rfl | hc | rfl | hc
      · exact isBlank_padded hc
      · exact hseparator
      · exact isBlank_padded hc
      · exact hseparator
      · exact isBlank_yearText hc
  | yearFirst =>
      simp only [write_yearFirst, List.mem_append, List.mem_cons] at hc
      rcases hc with hc | rfl | hc | rfl | hc
      · exact isBlank_yearText hc
      · exact hseparator
      · exact isBlank_padded hc
      · exact hseparator
      · exact isBlank_padded hc

theorem separator_of_mem_layouts :
    ∀ l ∈ layouts, isDigit l.separator = false ∧ Text.isBlank l.separator = false := by
  decide

theorem read?_write_of_mem {l m : Layout} (hl : l ∈ layouts) (hm : m ∈ layouts) (d : Date) :
    m.read? (l.write d) = if m = l then some d else none :=
  Layout.read?_write (separator_of_mem_layouts l hl).1 (separator_of_mem_layouts m hm).1 d

end Calendar

open Calendar

theorem Date.read?_write {l : Layout} (hl : l ∈ layouts) (d : Date) :
    read? (String.ofList (l.write d)) = some d := by
  unfold read?
  rw [String.toList_ofList,
    Text.trimChars_eq_self (Layout.isBlank_write (separator_of_mem_layouts l hl).2 d)]
  cases hfound : layouts.findSome? fun m => m.read? (l.write d) with
  | none =>
      have hown := List.findSome?_eq_none_iff.mp hfound l hl
      rw [read?_write_of_mem hl hl, if_pos rfl] at hown
      nomatch hown
  | some e =>
      obtain ⟨m, hm, hread⟩ := List.exists_of_findSome?_eq_some hfound
      rw [read?_write_of_mem hl hm] at hread
      split at hread
      · exact congrArg some (Option.some.inj hread).symm
      · nomatch hread

/-- Every date is read back from its text in each of the layouts, and no layout takes what is
written in another one, so that it does not matter which one is tried first.  In particular the
written form of a date stands for the date. -/
theorem Date.written_read_back (d : Date) :
    (∀ l ∈ layouts, read? (String.ofList (l.write d)) = some d) ∧
    (∀ l ∈ layouts, ∀ m ∈ layouts, m.read? (l.write d) = if m = l then some d else none) ∧
    (Value.text (Value.date d).toText).asDate? = some d := by
  refine ⟨fun l hl => read?_write hl d, fun l hl m hm => read?_write_of_mem hl hm d, ?_⟩
  have hlayout : ⟨.yearFirst, '-'⟩ ∈ layouts := by decide
  exact read?_write hlayout d

/-- The ides of March of the year 44 before Christ, which is the year -43. -/
def Date.ides : Date := ⟨-43, 3, 15, by decide⟩

theorem Date.written_read_back_ides :
    read? "15-03--0043" = some ides ∧ read? "-0043-03-15" = some ides ∧
      read? "15/03/-0043" = some ides ∧ (Value.text "-0043-03-15").asDate? = some ides := by
  have hdash : String.ofList (Layout.write ⟨.dayFirst, '-'⟩ ides) = "15-03--0043" := by
    decide +kernel
  have hyear : (Value.date ides).toText = "-0043-03-15" := by decide +kernel
  have hslash : String.ofList (Layout.write ⟨.dayFirst, '/'⟩ ides) = "15/03/-0043" := by
    decide +kernel
  obtain ⟨hread, -, hvalue⟩ := written_read_back ides
  rw [← hdash, ← hslash]
  rw [hyear] at hvalue
  exact ⟨hread _ (by decide), hvalue, hread _ (by decide), hvalue⟩

end Credence
