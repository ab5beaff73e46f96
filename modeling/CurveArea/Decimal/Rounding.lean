/-!
# Rounding to decimals

A positive number is given exactly, as a quotient of natural numbers. This module finds its leading
decimal place and its neighbours on a decimal grid, and rounds it to the nearer of them, halves to
the even one.
-/

namespace CurveArea.Decimal

/-- A quotient `num / den`, with `den` positive. -/
structure Ratio where
  /-- The dividend. -/
  num : Nat
  /-- The divisor. -/
  den : Nat

/-- The number of decimal digits of a natural number, none for zero. -/
def digitCount (n : Nat) : Nat :=
  if n = 0 then 0 else (Nat.toDigits 10 n).length

namespace Ratio

/-- The quotient measured in units of `10 ^ place`. -/
def inUnits (r : Ratio) : Int → Ratio
  | .ofNat k => ⟨r.num, r.den * Nat.pow 10 k⟩
  | .negSucc k => ⟨r.num * Nat.pow 10 (k + 1), r.den⟩

/-- The place of the leading decimal digit of a positive quotient: the greatest `e` such that
`10 ^ e` is at most the quotient. Below one, `10 ^ k` reaches `den / num` exactly when `k` is at
least the number of digits of `(den - 1) / num`. -/
def leadingPlace (r : Ratio) : Int :=
  if r.den ≤ r.num then (digitCount (r.num / r.den) : Int) - 1
  else -(digitCount ((r.den - 1) / r.num) : Int)

/-- The nearest natural number, the even one of two that are equally near. -/
def round (r : Ratio) : Nat :=
  let q := r.num / r.den
  let twice := 2 * (r.num % r.den)
  if twice < r.den then q
  else if r.den < twice then q + 1
  else if q % 2 = 0 then q else q + 1

/-- Rounding moves a quotient by half a unit at most. -/
theorem round_near (r : Ratio) (h : 0 < r.den) :
    2 * (r.round * r.den) ≤ 2 * r.num + r.den ∧ 2 * r.num ≤ 2 * (r.round * r.den) + r.den := by
  have hq := Nat.div_add_mod r.num r.den
  have hm := Nat.mod_lt r.num h
  have hs : (r.num / r.den + 1) * r.den = r.den * (r.num / r.den) + r.den := by
    rw [Nat.add_mul, Nat.mul_comm, Nat.one_mul]
  have h0 : r.num / r.den * r.den = r.den * (r.num / r.den) := Nat.mul_comm _ _
  unfold round
  dsimp only
  split
  · omega
  · split
    · omega
    · split <;> omega

end Ratio

end CurveArea.Decimal
