import Credence.Decimal.Shortest

/-!
# How numbers are written

Three layouts of the shortest decimal are in use.

* `plain` is how a number shows in values, conditions and answers: all digits in their places,
  however many zeros that takes, and never an exponent.  Of two equally near decimals it shows the
  one farther from zero.
* `exchange` is how a number stands in a saved document: in places between `10 ^ -5` and `10 ^ 16`,
  with an exponent beyond.  Of two equally near decimals it writes the one with an even last digit.
* `twoPlaces` rounds to hundredths, as confidences are shown to a reader.
-/

namespace Credence.Decimal

def digitsOf (n : Nat) : List Char := Nat.toDigits 10 n

def zeros (n : Nat) : List Char := List.replicate n '0'

/-- Writes a decimal with every digit in its place. -/
def inPlaces (d : Scaled) : List Char :=
  let digits := digitsOf d.digits
  let point := d.exponent + digits.length
  if 0 ≤ d.exponent then digits ++ zeros d.exponent.toNat
  else if 0 < point then digits.take point.toNat ++ '.' :: digits.drop point.toNat
  else '0' :: '.' :: zeros (-point).toNat ++ digits

/-- Writes a sign where there is one. -/
def signed (negative : Bool) (text : List Char) : List Char :=
  if negative then '-' :: text else text

/-- The text of a number that is not finite, or of a finite one by a given rule for what follows the
sign. -/
def writeWith (rule : Nat → Int → List Char) (x : Float) : String :=
  String.ofList <| match anatomy x with
    | .notANumber => "NaN".toList
    | .infinite negative => signed negative "inf".toList
    | .finite p => signed p.negative (rule p.mantissa p.exponent)

/-- The fewest digits that read back, all in their places. -/
def plain (x : Float) : String :=
  writeWith (fun m q => if m = 0 then ['0'] else inPlaces (shortest .upper m q)) x

/-- The number of hundredths nearest to `m * 2 ^ q`, ties going to the even one. -/
def hundredths (m : Nat) (q : Int) : Nat :=
  roundHalfEven (100 * m * twoPow q.toNat) (twoPow (-q).toNat)

/-- Two digits after the point. -/
def twoPlaces (x : Float) : String :=
  writeWith (fun m q =>
    let h := hundredths m q
    digitsOf (h / 100) ++ '.' :: digitsOf (h / 10 % 10) ++ digitsOf (h % 10)) x

/-- Writes a decimal with one digit before the point and an exponent. -/
def withExponent (d : Scaled) : List Char :=
  let digits := digitsOf d.digits
  let power := d.exponent + digits.length - 1
  let mantissa := match digits with
    | [] => []
    | [c] => [c]
    | c :: rest => c :: '.' :: rest
  mantissa ++ 'e' :: signed (power < 0) (digitsOf power.natAbs)

/-- The fewest digits that read back, in places between `10 ^ -5` and `10 ^ 16`; an integer in
places keeps one zero after the point. -/
def exchange (x : Float) : String :=
  writeWith (fun m q =>
    if m = 0 then ['0', '.', '0']
    else
      let d := shortest .even m q
      let point := d.exponent + (digitsOf d.digits).length
      if -5 < point ∧ point ≤ 16 then
        if 0 ≤ d.exponent then inPlaces d ++ ['.', '0'] else inPlaces d
      else withExponent d) x

end Credence.Decimal
