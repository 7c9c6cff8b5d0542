import TaintFlow.Double.Basic
import TaintFlow.Text.Numeral

/-!
# Reading double precision numbers

A decimal numeral is read in two steps, which are fast but do not always end at the nearest number.
First digits are gathered into a significand below `2 ^ 64`: of the whole part what does not fit any
more counts as zeros, and of the fraction it is left out. Then the significand is scaled by a power
of ten; the significand, the power and their product or quotient are each rounded.
-/
namespace TaintFlow

namespace Numeral

def values (digits : List Char) : List Nat := digits.filterMap (digit? 10)

/-- Append digits of the whole part to a significand, and count those for which there is no room. -/
def gatherWhole (n : Nat) : List Nat → Nat × Nat
  | [] => (n, 0)
  | d :: r => if 10 * n + d < UInt64.size then gatherWhole (10 * n + d) r else (n, r.length + 1)

/-- Append digits of the fraction to a significand while there is room, and count them. -/
def gatherFraction (n : Nat) : List Nat → Nat × Nat
  | [] => (n, 0)
  | d :: r =>
    if 10 * n + d < UInt64.size then
      let (m, count) := gatherFraction (10 * n + d) r
      (m, count + 1)
    else (n, 0)

end Numeral

namespace Magnitude

/-- The largest exponent of a power of ten in range. -/
def maxPower : Nat := 308

def powerOfTen (k : Nat) : Magnitude := ofNat (Nat.pow 10 k)

/-- A magnitude below `2 ^ 64` times a power of ten, if that is in range. Two divisions by the
largest power leave nothing of such a magnitude. -/
def scaled? (m : Magnitude) (e : Int) : Option Magnitude :=
  if m.isZero then some zero
  else if 0 ≤ e then
    if maxPower < e.toNat then none
    else
      let product := m.mul (powerOfTen e.toNat)
      if product.isFinite then some product else none
  else
    let k := (-e).toNat
    if k ≤ maxPower then some (m.div (powerOfTen k))
    else if k ≤ 2 * maxPower then
      some ((m.div (powerOfTen maxPower)).div (powerOfTen (k - maxPower)))
    else some zero

end Magnitude

/-- The number of a sign, the digits of a whole part and a fraction, and an exponent, if it is in
range. -/
def Double.ofDigits? (negative : Bool) (whole fraction : List Char) (exponent : Int) :
    Option Double :=
  let (n, dropped) := Numeral.gatherWhole 0 (Numeral.values whole)
  let (n, taken) := Numeral.gatherFraction n (Numeral.values fraction)
  (Magnitude.scaled? (.ofNat n) (exponent + dropped - taken)).map fun m => ⟨negative, m⟩

end TaintFlow
