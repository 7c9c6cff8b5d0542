import TaintFlow.Text.Numeral

/-!
# YAML scalars

A scalar is plain or quoted. Only a plain scalar may be null, a number or a boolean; a quoted one is
a string whatever it says. Numbers are natural: a plus sign may stand in front, a minus sign may
not.
-/
namespace TaintFlow.Yaml

inductive Scalar where
  | plain (text : String)
  | quoted (text : String)
deriving DecidableEq, Repr

/-- A number: decimal without a leading zero, or hexadecimal behind `0x`, octal behind `0o`, binary
behind `0b`. -/
def unsigned? (cs : List Char) : Option Nat :=
  match cs with
  | '0' :: 'x' :: r => Numeral.natural? 16 r
  | '0' :: 'o' :: r => Numeral.natural? 8 r
  | '0' :: 'b' :: r => Numeral.natural? 2 r
  | '0' :: _ :: _ => none
  | _ => Numeral.natural? 10 cs

/-- A number with a plus sign if desired. -/
def naturalOf? (cs : List Char) : Option Nat :=
  match cs with
  | '+' :: r => unsigned? r
  | _ => unsigned? cs

namespace Scalar

def text : Scalar → String
  | plain s => s
  | quoted s => s

def isNull : Scalar → Bool
  | plain s => decide (s ∈ ["", "~", "null", "Null", "NULL"])
  | quoted _ => false

def natural? : Scalar → Option Nat
  | plain s => naturalOf? s.toList
  | quoted _ => none

def bool? : Scalar → Option Bool
  | plain s =>
    if s ∈ ["true", "True", "TRUE"] then some true
    else if s ∈ ["false", "False", "FALSE"] then some false
    else none
  | quoted _ => none

end Scalar
end TaintFlow.Yaml
