/-! Powers of the two bases that numbers are written in. -/

namespace Parlance.Decimal

def twoTo (exponent : Nat) : Nat := Nat.pow 2 exponent

def tenTo (exponent : Nat) : Nat := Nat.pow 10 exponent

theorem twoTo_succ (exponent : Nat) : twoTo (exponent + 1) = twoTo exponent * 2 := rfl

theorem twoTo_pos (exponent : Nat) : 0 < twoTo exponent := Nat.pow_pos Nat.two_pos

def fitsSigned (bits : Nat) (value : Int) : Bool :=
  -(twoTo (bits - 1) : Int) ≤ value && value < twoTo (bits - 1)

def fitsUnsigned (bits : Nat) (value : Int) : Bool := 0 ≤ value && value < twoTo bits

end Parlance.Decimal
