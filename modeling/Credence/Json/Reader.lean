import Credence.Json.Draft
import Credence.Json.Numeral
import Credence.Text.Blank

/-!
# Reading documents

Each function reads something at the front of a text and gives what could be read of it with the
text that follows, or without one if the fault was met.  Every call consumes a character or is the
last one on its character, so twice the length of the text, and one more, bounds the calls.
-/

namespace Credence.Json

/-- What stands between the quotes of a text: characters, and numbers of 16 bits given by `\u`. -/
inductive Piece where
  | char (c : Char)
  | unit (n : Nat)

def hexValue? (c : Char) : Option Nat :=
  if '0' ≤ c ∧ c ≤ '9' then some (c.toNat - '0'.toNat)
  else if 'a' ≤ c ∧ c ≤ 'f' then some (c.toNat - 'a'.toNat + 10)
  else if 'A' ≤ c ∧ c ≤ 'F' then some (c.toNat - 'A'.toNat + 10)
  else none

/-- The number of four hexadecimal digits at the front of a text. -/
def hexUnit? : List Char → Option (Nat × List Char)
  | a :: b :: c :: d :: rest => do
    let a ← hexValue? a
    let b ← hexValue? b
    let c ← hexValue? c
    let d ← hexValue? d
    return (((a * 16 + b) * 16 + c) * 16 + d, rest)
  | _ => none

/-- The character that a letter after a backslash stands for. -/
def escaped? (c : Char) : Option Char :=
  if c = '\x22' ∨ c = '\\' ∨ c = '/' then some c
  else if c = 'b' then some '\x08'
  else if c = 'f' then some '\x0c'
  else if c = 'n' then some '\n'
  else if c = 'r' then some '\r'
  else if c = 't' then some '\t'
  else none

/-- The pieces of a text up to its closing quote, and what follows the quote.  The first argument
bounds their number. -/
def pieces : Nat → List Char → Option (List Piece × List Char)
  | 0, _ => none
  | _ + 1, [] => none
  | n + 1, c :: rest =>
    if c = '\x22' then some ([], rest)
    else if c.toNat < 0x20 then none
    else if c = '\\' then
      match rest with
      | [] => none
      | e :: rest =>
        if e = 'u' then do
          let (unit, rest) ← hexUnit? rest
          let (more, rest) ← pieces n rest
          return (.unit unit :: more, rest)
        else do
          let c ← escaped? e
          let (more, rest) ← pieces n rest
          return (.char c :: more, rest)
    else do
      let (more, rest) ← pieces n rest
      return (.char c :: more, rest)

/-- The characters of pieces: the two halves of a character outside the first plane stand next to
each other, and no half stands alone. -/
def joined? : List Piece → Option (List Char)
  | [] => some []
  | .char c :: rest => (joined? rest).map (c :: ·)
  -- 0xD800 to 0xDBFF are first halves, 0xDC00 to 0xDFFF second ones
  | .unit high :: .unit low :: rest =>
    if 0xD800 ≤ high ∧ high < 0xDC00 then
      if 0xDC00 ≤ low ∧ low < 0xE000 then
        (joined? rest).map (Char.ofNat (0x10000 + (high - 0xD800) * 0x400 + (low - 0xDC00)) :: ·)
      else none
    else if 0xDC00 ≤ high ∧ high < 0xE000 then none
    else (joined? (.unit low :: rest)).map (Char.ofNat high :: ·)
  | .unit n :: rest =>
    if 0xD800 ≤ n ∧ n < 0xE000 then none else (joined? rest).map (Char.ofNat n :: ·)

def spelled (ps : List Piece) : Option String := (joined? ps).map String.ofList

/-- Reads the rest of a word whose first character was seen. -/
def wordAhead (word : String) (draft : Draft) (ahead : List Char) : Draft × Option (List Char) :=
  let cs := word.toList
  if cs.isPrefixOf ahead then (draft, some (ahead.drop cs.length)) else (.broken, none)

mutual

/-- Reads a document at a depth. -/
def readAt : Nat → Nat → List Char → Draft × Option (List Char)
  | 0, _, _ => (.broken, none)
  | n + 1, depth, ahead =>
    match Text.skipGap ahead with
    | [] => (.broken, none)
    | c :: rest =>
      if c = '[' then
        match Text.skipGap rest with
        | ']' :: rest => (.list depth [] true, some rest)
        | rest =>
          let (items, after) := readItems n (depth + 1) rest
          (.list depth items after.isSome, after)
      else if c = '\x7b' then
        match Text.skipGap rest with
        | '\x7d' :: rest => (.object depth [] true, some rest)
        | rest =>
          let (fields, after) := readFields n (depth + 1) rest
          (.object depth fields after.isSome, after)
      else if c = '\x22' then
        match pieces (rest.length + 1) rest with
        | some (ps, rest) => (.text (spelled ps), some rest)
        | none => (.broken, none)
      else if c = 'n' then wordAhead "null" .null (c :: rest)
      else if c = 't' then wordAhead "true" (.bool true) (c :: rest)
      else if c = 'f' then wordAhead "false" (.bool false) (c :: rest)
      else
        match spellingAhead (c :: rest) with
        | some (s, rest) =>
          match s.numeral with
          | .integer i => (.integer i, some rest)
          | .number x => (.number (some x), some rest)
          | .huge => (.number none, some rest)
        | none => (.broken, none)

/-- Reads items up to the end of their list. -/
def readItems : Nat → Nat → List Char → List Draft × Option (List Char)
  | 0, _, _ => ([], none)
  | n + 1, depth, ahead =>
    match readAt n depth ahead with
    -- the broken item is kept: a decoder may find a fault in an earlier one
    | (item, none) => ([item], none)
    | (item, some rest) =>
      match Text.skipGap rest with
      | ',' :: rest =>
        let (more, after) := readItems n depth rest
        (item :: more, after)
      | ']' :: rest => ([item], some rest)
      | _ => ([item], none)

/-- Reads fields up to the end of their object. -/
def readFields : Nat → Nat → List Char → List (Option String × Draft) × Option (List Char)
  | 0, _, _ => ([], none)
  | n + 1, depth, ahead =>
    match Text.skipGap ahead with
    | '\x22' :: rest =>
      match pieces (rest.length + 1) rest with
      | none => ([], none)
      | some (ps, rest) =>
        match Text.skipGap rest with
        | ':' :: rest =>
          match readAt n depth rest with
          | (value, none) => ([(spelled ps, value)], none)
          | (value, some rest) =>
            match Text.skipGap rest with
            | ',' :: rest =>
              let (more, after) := readFields n depth rest
              ((spelled ps, value) :: more, after)
            | '\x7d' :: rest => ([(spelled ps, value)], some rest)
            | _ => ([(spelled ps, value)], none)
        | _ => ([(spelled ps, .broken)], none)
    | _ => ([], none)

end

/-- Reads a text as a draft, and tells whether nothing but gap follows it. -/
def draft (s : String) : Draft × Bool :=
  let ahead := s.toList
  match readAt (2 * ahead.length + 1) 1 ahead with
  | (d, some rest) => (d, (Text.skipGap rest).isEmpty)
  | (d, none) => (d, false)

/-- Reads a whole text as a document. -/
def read? (s : String) : Option Json :=
  match draft s with
  | (d, true) => d.toJson?
  | (_, false) => none

end Credence.Json
