import CurveArea.Formula.Operator

/-!
# Precedence

A precedence gives some of the operators a rank. Of two operators the one with the smaller rank
binds tighter, and operators of equal rank are read from left to right.
-/

namespace CurveArea

/-- The ranks of the operators, where they have one: the priority table of the specification,
section 3. A table may leave an operator out, and then no formula may use it. -/
structure Precedence where
  /-- The rank of an operator. -/
  rank? : Operator → Option Nat

/-- The customary precedence: powers, then products and quotients, then sums and differences
(specification, section 3). -/
def Precedence.standard : Precedence where
  rank?
    | .power => some 1
    | .times => some 2
    | .per => some 2
    | .plus => some 3
    | .minus => some 3

end CurveArea
