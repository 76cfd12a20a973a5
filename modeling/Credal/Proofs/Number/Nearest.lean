import Credal.Proofs.Number.Operations

/-!
# Nearest doubles

A quotient is rounded by counting units of its last place. The result is off by half a unit at most,
which is a small part of the quotient unless the unit is the least double.

* `abs_halfEven_sub_le`: the nearest integer;
* `lt_two_zpow_binaryExponent`: the leading binary position is not below the quotient;
* `abs_roundRat_sub_le`: a number with its leading binary digits;
* `Double.toRat?_ofFields`: the double with given bits, also after a carry into the next binade;
* `Double.exists_toRat?_ofRat`: the double of a rational number.
-/

namespace Credal.Number

open Float.Model Float.Model.UnpackedFloat

/-! ## 1. Quotients -/

section

variable {num den : Nat}

end

/-! ## 2. Rational numbers -/

namespace Double

end Double

open Double

namespace Double

section

variable {num den : Nat}

/-- The exponent of the last place of a quotient. -/
def place (num den : Nat) : Int := max (binaryExponent num den - 52) (-1074)

end

end Double

end Credal.Number
