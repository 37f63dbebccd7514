/-!
# Tables of code-point ranges

The properties of characters that the library needs are kept as text, or as numbers: runs of code
points in ascending order, in hexadecimal.  This module makes an array of them and looks a code point
up in it by halving.
-/

namespace Credence.Text

/-! ## Reading hexadecimal text -/

/-- The value of a hexadecimal digit. -/
def hexDigit? (c : Char) : Option Nat :=
  if '0' ≤ c ∧ c ≤ '9' then some (c.toNat - '0'.toNat)
  else if 'A' ≤ c ∧ c ≤ 'F' then some (c.toNat - 'A'.toNat + 10)
  else if 'a' ≤ c ∧ c ≤ 'f' then some (c.toNat - 'a'.toNat + 10)
  else none

/-- The number that the hexadecimal digits of a text spell; other characters are skipped. -/
def readHex (digits : List Char) : Nat :=
  digits.foldl (fun n c => (hexDigit? c).elim n fun d => 16 * n + d) 0

/-- The number that the decimal digits of a text spell. -/
def readDecimal (digits : List Char) : Nat :=
  digits.foldl (fun n c => 10 * n + (c.toNat - '0'.toNat)) 0

/-- The parts of a text between the characters that pass a test, empty parts left out. -/
def partsAt (cut : Char → Bool) (text : List Char) : List (List Char) :=
  let (part, parts) := text.foldr
    (fun c (part, parts) =>
      if cut c then ([], if part.isEmpty then parts else part :: parts) else (c :: part, parts))
    (([] : List Char), ([] : List (List Char)))
  if part.isEmpty then parts else part :: parts

/-- The entries of a table: what stands between blanks and line ends. -/
def entriesOf (text : String) : List (List Char) :=
  partsAt (fun c => c = ' ' || c = '\n') text.toList

/-- Splits at the first character that passes a test, which is dropped. -/
def cutAt (cut : Char → Bool) (text : List Char) : List Char × List Char :=
  (text.takeWhile fun c => !cut c, (text.dropWhile fun c => !cut c).drop 1)

/-! ## Ranges with a note -/

/-- A run of code points with what the table says about it. -/
structure Run (α : Type) where
  first : Nat
  last : Nat
  /-- What holds of its members. -/
  note : α

/-- The bounds that `first-last` or a single point spells. -/
def readBounds (text : List Char) : Nat × Nat :=
  match partsAt (· = '-') text with
  | [a, b] => (readHex a, readHex b)
  | _ => (readHex text, readHex text)

/-- Runs in ascending order. -/
abbrev RunTable (α : Type) := Array (Run α)

/-- Halves `lo ≤ · < hi` until the run that may hold `n` is left; `fuel` bounds the halvings. -/
def RunTable.search {α : Type} (t : RunTable α) (n : Nat) : Nat → Nat → Nat → Option (Run α)
  | 0, _, _ => none
  | fuel + 1, lo, hi =>
    if lo < hi then
      let mid := (lo + hi) / 2
      match t[mid]? with
      | none => none
      | some r =>
        if n < r.first then RunTable.search t n fuel lo mid
        else if r.last < n then RunTable.search t n fuel (mid + 1) hi
        else some r
    else none

/-- The run that holds a code point. -/
def RunTable.find? {α : Type} (t : RunTable α) (n : Nat) : Option (Run α) :=
  t.search n (t.size + 1) 0 t.size

/-- Whether some run holds the character. -/
def RunTable.holds {α : Type} (t : RunTable α) (c : Char) : Bool :=
  (t.find? c.toNat).isSome

/-- The runs between given bounds. -/
def runsOf (bounds : List (Nat × Nat)) : RunTable Unit :=
  (bounds.map fun (a, b) => ⟨a, b, ()⟩).toArray

/-- The runs of a property text. -/
def rangesOf (text : String) : RunTable Unit :=
  ((entriesOf text).map fun e => let (a, b) := readBounds e; ⟨a, b, ()⟩).toArray

/-- The runs of a text with a number after a colon. -/
def classesOf (text : String) : RunTable Nat :=
  ((entriesOf text).map fun e =>
    let (bounds, cls) := cutAt (· = ':') e
    let (a, b) := readBounds bounds
    ⟨a, b, readDecimal cls⟩).toArray

/-! ## Runs that map -/

/-- How a run maps: the step between its members and the image of the first one. -/
structure Shift where
  /-- The distance between members of the run. -/
  step : Nat
  /-- The image of the first member. -/
  target : Nat

/-- The runs of a mapping text. -/
def shiftsOf (text : String) : RunTable Shift :=
  ((entriesOf text).map fun e =>
    let (source, target) := cutAt (· = '>') e
    let (bounds, step) := cutAt (· = '/') source
    let (a, b) := readBounds bounds
    ⟨a, b, ⟨if step.isEmpty then 1 else readDecimal step, readHex target⟩⟩).toArray

/-- The image of a character; one that no run takes maps to itself. -/
def RunTable.map (t : RunTable Shift) (c : Char) : Char :=
  match t.find? c.toNat with
  | some r =>
    if (c.toNat - r.first) % r.note.step = 0 then Char.ofNat (r.note.target + (c.toNat - r.first))
    else c
  | none => c

end Credence.Text
