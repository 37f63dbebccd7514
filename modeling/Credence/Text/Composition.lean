import Credence.Text.RangeTable
import Credence.Text.Property.Decomposition
import Credence.Text.Property.CombiningClass

/-!
# Composed form of a text

Two spellings of a text are canonically equivalent when they differ only in whether marks are
written into their letter or after it, and in the order of marks that do not interact.  `compose`
brings a text to its composed form: it takes every character apart, sorts the marks after each
letter by their combining class, and puts together again what forms one character.
-/

namespace Credence.Text

/-! ## Tables -/

/-- The characters that decompose to one other character. -/
def singletonTable : RunTable Nat :=
  ((entriesOf Property.singletons).map fun e =>
    let (source, target) := cutAt (· = '>') e
    let (a, b) := readBounds source
    ⟨a, b, readHex target⟩).toArray

/-- What a character of the pair table decomposes to. -/
structure Pair where
  first : Nat
  second : Nat
  /-- Whether the two parts are put together again. -/
  composes : Bool

/-- The characters that decompose to two characters. -/
def pairTable : RunTable Pair :=
  ((entriesOf Property.pairs).map fun e =>
    let (source, parts) := cutAt (fun c => c = '=' || c = '!') e
    let (first, second) := cutAt (· = '+') parts
    let n := readHex source
    ⟨n, n, ⟨readHex first, readHex second, e.contains '='⟩⟩).toArray

/-- The runs of marks with a combining class. -/
def combiningTable : RunTable Nat := classesOf Property.combiningClass

/-- The combining class of a character, 0 for a letter. -/
def combiningClass (c : Char) : Nat :=
  if c.toNat < 0x300 then 0 else ((combiningTable.find? c.toNat).map (·.note)).getD 0

/-! ## Syllables of Hangul

A Hangul syllable is computed from its leading consonant, its vowel and its optional final
consonant: 19 leads, 21 vowels and 27 finals, with 28 places for the final. -/

/-- The parts of a Hangul syllable. -/
def syllableParts? (n : Nat) : Option (List Nat) :=
  if 0xAC00 ≤ n ∧ n ≤ 0xD7A3 then
    let s := n - 0xAC00
    let lead := 0x1100 + s / 588
    let vowel := 0x1161 + s % 588 / 28
    some (if s % 28 = 0 then [lead, vowel] else [lead, vowel, 0x11A7 + s % 28])
  else none

/-- The Hangul syllable of two parts, if they form one. -/
def syllable? (a b : Nat) : Option Nat :=
  if 0x1100 ≤ a ∧ a < 0x1113 ∧ 0x1161 ≤ b ∧ b < 0x1176 then
    some (0xAC00 + ((a - 0x1100) * 21 + (b - 0x1161)) * 28)
  else if 0xAC00 ≤ a ∧ a ≤ 0xD7A3 ∧ (a - 0xAC00) % 28 = 0 ∧ 0x11A7 < b ∧ b < 0x11C3 then
    some (a + (b - 0x11A7))
  else none

/-! ## Taking apart -/

/-- Takes a code point apart, and its parts in turn; `fuel` bounds the depth. -/
def takeApart : Nat → Nat → List Nat
  | 0, n => [n]
  | fuel + 1, n =>
    match syllableParts? n with
    | some parts => parts
    | none =>
      match singletonTable.find? n with
      | some r => takeApart fuel r.note
      | none =>
        match pairTable.find? n with
        -- the second part of a pair never decomposes
        | some r => takeApart fuel r.note.first ++ [r.note.second]
        | none => [n]

/-- The characters that one character is canonically equivalent to; no decomposition is nested more
than eight deep. -/
def decomposeChar (c : Char) : List Char :=
  if c.toNat < 0xC0 then [c] else (takeApart 8 c.toNat).map Char.ofNat

/-- Puts a mark before the marks of a higher class that end a reversed text. -/
def sinkMark (c : Char) (cls : Nat) : List Char → List Char
  | [] => [c]
  | d :: before => if cls < combiningClass d then d :: sinkMark c cls before else c :: d :: before

/-- Sorts each run of marks by combining class, marks of one class staying in order. -/
def orderMarks (text : List Char) : List Char :=
  (text.foldl (fun before c =>
    let cls := combiningClass c
    if cls = 0 then c :: before else sinkMark c cls before) []).reverse

/-! ## Putting together -/

/-- The character that two characters form together. -/
def composePair? (a b : Char) : Option Char :=
  match syllable? a.toNat b.toNat with
  | some n => some (Char.ofNat n)
  | none =>
    if b.toNat < 0x300 then none
    else
      (Array.find? (fun r : Run Pair =>
        r.note.composes && r.note.first == a.toNat && r.note.second == b.toNat) pairTable).map
        fun r => Char.ofNat r.first

/-- Puts together what follows a letter.  `marks` are the marks after the letter that stayed, last
first; a character joins the letter unless the mark before it has a class at least as high. -/
def joinFrom (letter : Char) (marks : List Char) : List Char → List Char
  | [] => letter :: marks.reverse
  | c :: rest =>
    let cls := combiningClass c
    let free := match marks with
      | [] => true
      | m :: _ => combiningClass m < cls
    match if free then composePair? letter c else none with
    | some d => joinFrom d marks rest
    | none =>
      if cls = 0 then letter :: marks.reverse ++ joinFrom c [] rest
      else joinFrom letter (c :: marks) rest

/-- Puts together a text that is taken apart and ordered; leading marks have no letter to join. -/
def join : List Char → List Char
  | [] => []
  | c :: rest => if combiningClass c = 0 then joinFrom c [] rest else c :: join rest

/-- The composed form of a text. -/
def composeChars (text : List Char) : List Char :=
  join (orderMarks (text.flatMap decomposeChar))

def compose (s : String) : String := String.ofList (composeChars s.toList)

end Credence.Text
