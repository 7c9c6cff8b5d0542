/-!
# Double precision numbers

A double precision number is a sign and a magnitude `significand · 2 ^ exponent`. Products and
quotients are exact fractions that are rounded to the nearest magnitude; of two equally near ones
the one with the even significand is taken. All steps are arithmetic on natural numbers.
-/
namespace TaintFlow

/-- A non-negative number as a numerator and a denominator. -/
structure Ratio where
  num : Nat
  den : Nat
deriving DecidableEq, Repr

namespace Ratio

def power (base : Nat) (e : Int) : Ratio := ⟨base.pow e.toNat, base.pow (-e).toNat⟩

def mul (a b : Ratio) : Ratio := ⟨a.num * b.num, a.den * b.den⟩

def div (a b : Ratio) : Ratio := ⟨a.num * b.den, a.den * b.num⟩

def scale (a : Ratio) (n : Nat) : Ratio := ⟨n * a.num, a.den⟩

def lt (a b : Ratio) : Bool := a.num * b.den < b.num * a.den

def le (a b : Ratio) : Bool := a.num * b.den ≤ b.num * a.den

/-- The nearest natural number; of two, the even one. -/
def round (a : Ratio) : Nat :=
  let q := a.num / a.den
  let twice := 2 * (a.num % a.den)
  if twice < a.den then q
  else if a.den < twice then q + 1
  else q + q % 2

end Ratio

/-- The number `significand · 2 ^ exponent`. The significand has 53 bits unless the number is too
small for that, and zero has the least exponent. -/
structure Magnitude where
  significand : Nat
  exponent : Int
deriving DecidableEq, Repr

namespace Magnitude

def minExponent : Int := -1074

/-- Larger exponents are out of range. -/
def maxExponent : Int := 971

/-- The least number of more than 53 bits. -/
def limit : Nat := Nat.pow 2 53

/-- The least number of 53 bits. -/
def leading : Nat := Nat.pow 2 52

def zero : Magnitude := ⟨0, minExponent⟩

def isZero (m : Magnitude) : Bool := m.significand = 0

def isFinite (m : Magnitude) : Bool := m.exponent ≤ maxExponent

def nearest (a : Ratio) : Magnitude :=
  let guess : Int := (a.num.log2 : Int) - (a.den.log2 : Int) - 53
  let scaled (q : Int) : Ratio := a.mul (.power 2 (-q))
  let q := if Ratio.le ⟨limit, 1⟩ (scaled guess) then guess + 1 else guess
  let q := max q minExponent
  let n := (scaled q).round
  if n = 0 then zero
  else if n = limit then ⟨leading, q + 1⟩
  else ⟨n, q⟩

def ofNat (n : Nat) : Magnitude := nearest ⟨n, 1⟩

/-- The multiple `n / 4` of the last place. -/
def quarters (m : Magnitude) (n : Nat) : Ratio := (Ratio.power 2 (m.exponent - 2)).scale n

def toRatio (m : Magnitude) : Ratio := m.quarters (4 * m.significand)

def mul (a b : Magnitude) : Magnitude := nearest (a.toRatio.mul b.toRatio)

def div (a b : Magnitude) : Magnitude := nearest (a.toRatio.div b.toRatio)

end Magnitude

/-- A double precision number; zero comes with either sign. -/
structure Double where
  negative : Bool
  magnitude : Magnitude
deriving DecidableEq, Repr

end TaintFlow
