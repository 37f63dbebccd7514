import Credence.Text.Pattern

/-!
# E-mail addresses

An address is a user, an `@` and a host.  A host is at least two labels with points between them,
and its last label is at least two letters.
-/

namespace Credence

structure Address where
  user : List Char
  host : List Char
deriving DecidableEq, Repr

namespace Address

open Text (Pattern)

/-- Whether a character may stand in the name of a user. -/
def isUserChar (c : Char) : Bool := c.isAlphanum || c ∈ ['.', '_', '%', '+', '-']

/-- Whether a character may stand in a label of a host. -/
def isLabelChar (c : Char) : Bool := c.isAlphanum || c = '-'

/-- The name of a user, `[A-Za-z0-9._%+-]+`. -/
def userPattern : Pattern := .atLeast 1 (.one isUserChar)

/-- A label of a host, `[A-Za-z0-9-]+`. -/
def labelPattern : Pattern := .atLeast 1 (.one isLabelChar)

/-- A host, `[A-Za-z0-9-]+(\.[A-Za-z0-9-]+)*\.[A-Za-z]{2,}`. -/
def hostPattern : Pattern :=
  .seq labelPattern <| .seq (.many (.seq (.char '.') labelPattern)) <|
    .seq (.char '.') (.atLeast 2 (.one Char.isAlpha))

/-- Reads an address: the first way to see the whole text as a user, an `@` and a host. -/
def read? (text : List Char) : Option Address :=
  (userPattern.ways text).findSome? fun (user, rest) =>
    ((Pattern.char '@').ways rest).findSome? fun (_, rest) =>
      (hostPattern.ways rest).findSome? fun (host, rest) =>
        if rest = [] then some ⟨user, host⟩ else none

end Address

end Credence
