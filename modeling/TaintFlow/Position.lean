/-!
# Source positions

A line of a source file whose path may be unknown. Positions without a path come first; otherwise
paths are compared code point by code point, and then lines.
-/
namespace TaintFlow

/-- A line of the file at `path`. -/
structure Position where
  path : Option String
  line : Int32
deriving DecidableEq, Repr

namespace Position

instance : Ord Position := ⟨compareLex (compareOn path) (compareOn line)⟩

instance : Std.TransOrd Position :=
  inferInstanceAs (Std.TransCmp (compareLex (compareOn path) (compareOn line)))

instance : Std.LawfulEqOrd Position where
  eq_of_compare {a b} h := by
    have h' : (compare a.path b.path).then (compare a.line b.line) = .eq := h
    obtain ⟨hp, hl⟩ := Ordering.then_eq_eq.1 h'
    have := Std.LawfulEqCmp.eq_of_compare hp
    have := Std.LawfulEqCmp.eq_of_compare hl
    cases a; cases b; simp_all

/-- `path:line`, with `unknown` for a path that is not known. -/
def text (p : Position) : String := p.path.getD "unknown" ++ ":" ++ toString p.line.toInt

def debugText (p : Position) : String := "Position(" ++ p.text ++ ")"

/-- The position `n` lines further down; lines wrap around at 32 bits. -/
def shift (p : Position) (n : Int32) : Position := { p with line := p.line + n }

end Position
end TaintFlow
