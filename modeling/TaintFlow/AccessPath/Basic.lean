import TaintFlow.Method
import TaintFlow.Name

/-!
# Access paths

An access path is a port of a method: a root (a parameter, the returned value, or one of three
abstract places) followed by a path of fields. `append` keeps paths from growing without bound, and
`canonicalize` gives a port the form in which it is matched across artifacts.
-/
namespace TaintFlow

inductive Root where
  /-- Parameter `index`; the receiver of an instance method is parameter 0. -/
  | argument (index : UInt32)
  | result
  /-- Port of a declared source or sink, which has no callee. -/
  | leaf
  /-- Port matched across artifacts. -/
  | anchor
  | producer
deriving DecidableEq, Repr

namespace Root

def isArgument : Root → Bool
  | .argument _ => true
  | _ => false

def argumentIndex? : Root → Option UInt32
  | .argument i => some i
  | _ => none

def isAnchor (r : Root) : Bool := decide (r = .anchor)

/-- Parameters come before all other roots, and those in the order of their declaration. -/
def rank : Root → Nat
  | .argument _ => 0
  | .result => 1
  | .leaf => 2
  | .anchor => 3
  | .producer => 4

instance : Ord Root := ⟨compareLex (compareOn rank) (compareOn argumentIndex?)⟩

instance : Std.TransOrd Root :=
  inferInstanceAs (Std.TransCmp (compareLex (compareOn rank) (compareOn argumentIndex?)))

instance : Std.LawfulEqOrd Root where
  eq_of_compare {a b} h := by
    have h' : (compare a.rank b.rank).then (compare a.argumentIndex? b.argumentIndex?) = .eq := h
    obtain ⟨hr, hi⟩ := Ordering.then_eq_eq.1 h'
    have hr := Std.LawfulEqCmp.eq_of_compare hr
    have hi := Std.LawfulEqCmp.eq_of_compare hi
    cases a <;> cases b <;> simp_all [rank, argumentIndex?]

end Root

/-- A root and the fields that lead from it. -/
structure AccessPath where
  root : Root
  path : List PathElement
deriving DecidableEq, Repr

namespace AccessPath

instance : Ord AccessPath := ⟨compareLex (compareOn root) (compareOn path)⟩

instance : Std.TransOrd AccessPath :=
  inferInstanceAs (Std.TransCmp (compareLex (compareOn root) (compareOn path)))

instance : Std.LawfulEqOrd AccessPath where
  eq_of_compare {a b} h := by
    have h' : (compare a.root b.root).then (compare a.path b.path) = .eq := h
    obtain ⟨hr, hp⟩ := Ordering.then_eq_eq.1 h'
    have := Std.LawfulEqCmp.eq_of_compare hr
    have := Std.LawfulEqCmp.eq_of_compare hp
    cases a; cases b; simp_all

def ofRoot (r : Root) : AccessPath := ⟨r, []⟩

/-- A path of this many elements is no longer extended. -/
def maxDepth : Nat := 4

/-- Append one field. Taint on a path covers all that is reached through it, so a path that is as
deep as `maxDepth` may stay as it is. -/
def append (p : AccessPath) (e : PathElement) : AccessPath :=
  if p.path.length < maxDepth then { p with path := p.path ++ [e] } else p

end AccessPath
end TaintFlow
