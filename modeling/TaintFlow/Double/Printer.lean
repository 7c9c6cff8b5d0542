import TaintFlow.Double.Basic

/-!
# The shortest text of a double precision number

A number is shown with the fewest decimal digits that are still nearest to it. `shortestDigits`
looks for the coarsest decimal grid that has a point in the interval of numbers which round to the
magnitude, and `Double.text` lays the digits out.
-/
namespace TaintFlow

/-- The least `p` with the number below `10 ^ p`. -/
def Ratio.pointPosition (a : Ratio) : Int :=
  if a.den ≤ a.num then ((Nat.toDigits 10 (a.num / a.den)).length : Int)
  else
    let inverse := (a.den + a.num - 1) / a.num
    1 - ((Nat.toDigits 10 (inverse - 1)).length : Int)

namespace Magnitude

/-- Whether a number rounds to the magnitude; the ends of the interval do when the significand is
even. Below a power of two the lower neighbour is at half the distance. -/
def covers (m : Magnitude) (a : Ratio) : Bool :=
  let n := m.significand
  let below := if n = leading ∧ minExponent < m.exponent then 4 * n - 1 else 4 * n - 2
  let lower := m.quarters below
  let upper := m.quarters (4 * n + 2)
  if n % 2 = 0 then lower.le a && a.le upper else lower.lt a && a.lt upper

/-- The point of the grid `10 ^ k` that is next to the magnitude and rounds to it, if there is
one. -/
def onGrid? (m : Magnitude) (k : Int) : Option Nat :=
  let inGrid := m.toRatio.mul (.power 10 (-k))
  let point (n : Nat) : Ratio := (Ratio.power 10 k).scale n
  let floor := inGrid.num / inGrid.den
  [inGrid.round, floor, floor + 1].find? fun n => n ≠ 0 && m.covers (point n)

/-- Digits and exponent of the shortest decimal number that rounds to a magnitude other than
zero. -/
def shortestDigits (m : Magnitude) : Nat × Int :=
  let p := m.toRatio.pointPosition
  let hit? := (List.range 17).findSome? fun i =>
    let k := p - (i + 1 : Nat)
    (m.onGrid? k).map fun n => (n, k)
  hit?.getD (m.significand, 0)

end Magnitude

def stripZeros (fuel n : Nat) (k : Int) : Nat × Int :=
  match fuel with
  | 0 => (n, k)
  | fuel + 1 => if n % 10 = 0 then stripZeros fuel (n / 10) (k + 1) else (n, k)

/-- The power of ten behind `e`, with its sign. -/
def exponentText (e : Int) : List Char := (if 0 ≤ e then ['+'] else []) ++ (toString e).toList

/-- Digits `n` at exponent `k` as text: positional while the point stands close to the digits, and
with an exponent otherwise. -/
def layoutDigits (n : Nat) (k : Int) : String :=
  let ds := Nat.toDigits 10 n
  let point : Int := ds.length + k
  let zeros (z : Int) := List.replicate z.toNat '0'
  let text : List Char :=
    if 0 ≤ k ∧ point ≤ 16 then ds ++ zeros k ++ ['.', '0']
    else if 0 < point ∧ point ≤ 16 then ds.take point.toNat ++ '.' :: ds.drop point.toNat
    else if -5 < point ∧ point ≤ 0 then '0' :: '.' :: zeros (-point) ++ ds
    else
      let mantissa := match ds with
        | [d] => [d]
        | d :: r => d :: '.' :: r
        | [] => []
      mantissa ++ 'e' :: exponentText (point - 1)
  String.ofList text

def Double.text (d : Double) : String :=
  let sign := if d.negative then "-" else ""
  if d.magnitude.isZero then sign ++ "0.0"
  else
    let (n, k) := d.magnitude.shortestDigits
    let (n, k) := stripZeros 17 n k
    sign ++ layoutDigits n k

end TaintFlow
