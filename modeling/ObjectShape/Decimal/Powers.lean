/-!
# Powers of two and of ten

Floats are whole numbers times powers of two, and decimals whole numbers times powers of ten.
-/

namespace ObjectShape.Decimal

set_option autoImplicit false

def powerOfTwo (exponent : Nat) : Nat :=
  Nat.pow 2 exponent

def powerOfTen (exponent : Nat) : Nat :=
  Nat.pow 10 exponent

end ObjectShape.Decimal
