/-!
# Powers of two and ten

The scales of binary and decimal numbers.
-/

namespace Credence.Decimal

def twoPow (n : Nat) : Nat := Nat.pow 2 n

def tenPow (n : Nat) : Nat := Nat.pow 10 n

theorem twoPow_pos (n : Nat) : 0 < twoPow n := Nat.pow_pos (by decide : 0 < 2)

theorem tenPow_pos (n : Nat) : 0 < tenPow n := Nat.pow_pos (by decide : 0 < 10)

end Credence.Decimal
