/-!
# Abstract domains

The operations that every domain of the analysis offers. Widening is the join and narrowing is the
meet unless a domain says otherwise, and two elements are equal when each is below the other unless
a domain says otherwise. No law is part of the class: each domain proves those that hold of it.
-/
namespace TaintFlow

/-- A type of abstract values with an order, joins and meets. -/
class AbstractDomain (α : Type) where
  isBottom : α → Bool
  leq : α → α → Bool
  equals : α → α → Bool := fun a b => leq a b && leq b a
  join : α → α → α
  widen : α → α → α := join
  meet : α → α → α
  narrow : α → α → α := meet

/-- An element of a grouped set: elements with equal keys are merged there. -/
class Grouping (ε : Type) (κ : outParam Type) extends AbstractDomain ε where
  groupKey : ε → κ
  /-- What remains of an element when the part implied by another is taken away. It is asked for
  only when the element is not below the other; keeping the whole element is always right. -/
  difference : ε → ε → ε := fun a _ => a

end TaintFlow
