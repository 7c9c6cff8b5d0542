import TaintFlow.Collection.SortedMap
import TaintFlow.Domain

/-!
# Grouped sets

A set whose elements are partitioned by a key. Elements with equal keys are merged by their own
domain operations, so the set holds one element for each key, and it never holds a bottom element.

    (k₁: a₁, k₂: a₂) ⊔ (k₂: b₂, k₃: b₃) = (k₁: a₁, k₂: a₂ ⊔ b₂, k₃: b₃)
    (k₁: a₁, k₂: a₂) ⊓ (k₂: b₂, k₃: b₃) = (k₂: a₂ ⊓ b₂)

An operation that changes elements puts each of them back under the key that it then has. `Valid`
says that a set stands as `add` builds it; the operations are defined without it.
-/
namespace TaintFlow

/-- Elements stored under keys. -/
structure Grouped (κ ε : Type) [Ord κ] where
  groups : SortedMap κ ε
deriving DecidableEq, Repr

namespace Grouped

variable {κ ε : Type} [Ord κ] [DecidableEq κ]

def empty : Grouped κ ε := ⟨∅⟩

instance : EmptyCollection (Grouped κ ε) := ⟨empty⟩
instance : Inhabited (Grouped κ ε) := ⟨empty⟩

def isEmpty (g : Grouped κ ε) : Bool := g.groups.isEmpty

def size (g : Grouped κ ε) : Nat := g.groups.size

def elements (g : Grouped κ ε) : List ε := g.groups.values

def get? (g : Grouped κ ε) (k : κ) : Option ε := g.groups.get? k

def contains (g : Grouped κ ε) (k : κ) : Bool := (g.get? k).isSome

def erase (g : Grouped κ ε) (k : κ) : Grouped κ ε := ⟨g.groups.erase k⟩

def filter (p : ε → Bool) (g : Grouped κ ε) : Grouped κ ε := ⟨g.groups.filter fun _ e => p e⟩

variable [Grouping ε κ]

/-- Every element is stored under its own key, and none is bottom. -/
def Valid (g : Grouped κ ε) : Prop :=
  ∀ k e, g.get? k = some e → Grouping.groupKey e = k ∧ AbstractDomain.isBottom e = false

/-- Whether every group of `g` has a counterpart in `h` that it is below. A set with more groups than
`h` cannot be below it, and then no group is looked at. -/
def leq (g h : Grouped κ ε) : Bool :=
  decide (g.size ≤ h.size) &&
    g.groups.entries.all fun (k, e) => (h.get? k).any (AbstractDomain.leq e)

def equals (g h : Grouped κ ε) : Bool :=
  g.size == h.size &&
    g.groups.entries.all fun (k, e) => (h.get? k).any (AbstractDomain.equals e)

variable [Std.TransOrd κ]

/-- Add an element, merging it into the element that has its key. Bottom adds nothing. -/
def add (g : Grouped κ ε) (e : ε) : Grouped κ ε :=
  if AbstractDomain.isBottom e then g
  else
    let k := Grouping.groupKey e
    match g.get? k with
    | some existing => ⟨g.groups.insert k (AbstractDomain.join existing e)⟩
    | none => ⟨g.groups.insert k e⟩

/-- Adding an element changes the group of its key alone. -/
theorem get?_add [Std.LawfulEqOrd κ] {g : Grouped κ ε} {e : ε} {k : κ} :
    (g.add e).get? k =
      if AbstractDomain.isBottom e = false ∧ k = Grouping.groupKey e then
        some ((g.get? k).elim e (AbstractDomain.join · e))
      else g.get? k := by
  unfold add
  cases hb : AbstractDomain.isBottom e with
  | true => simp
  | false =>
    cases hg : g.get? (Grouping.groupKey e) with
    | none =>
      by_cases hk : k = Grouping.groupKey e <;> simp_all [get?, SortedMap.get?_insert]
    | some existing =>
      by_cases hk : k = Grouping.groupKey e <;> simp_all [get?, SortedMap.get?_insert]

def addAll (g : Grouped κ ε) (es : List ε) : Grouped κ ε := es.foldl add g

def ofList (es : List ε) : Grouped κ ε := (∅ : Grouped κ ε).addAll es

/-- Replace each element by at most one other, merging those that come to have equal keys. -/
def rebuild (f : ε → Option ε) (g : Grouped κ ε) : Grouped κ ε := ofList (g.elements.filterMap f)

/-- Change each element, merging those that come to have equal keys. -/
def map (f : ε → ε) (g : Grouped κ ε) : Grouped κ ε := ofList (g.elements.map f)

/-- Take away what `h` implies: an element below its counterpart goes, any other one keeps its
difference. Where `h` is empty, the elements stay where they stand. -/
def difference (g h : Grouped κ ε) : Grouped κ ε :=
  if h.isEmpty then g
  else
    g.rebuild fun e =>
      match h.get? (Grouping.groupKey e) with
      | none => some e
      | some counterpart =>
        if AbstractDomain.leq e counterpart then none else some (Grouping.difference e counterpart)

def join (g h : Grouped κ ε) : Grouped κ ε := g.addAll h.elements

/-- Widen one group by an element that arrives under the key `k`. -/
def widenAt (g : Grouped κ ε) (k : κ) (e : ε) : Grouped κ ε :=
  match g.get? k with
  | some existing => ⟨g.groups.insert k (AbstractDomain.widen existing e)⟩
  | none => if AbstractDomain.isBottom e then g else ⟨g.groups.insert k e⟩

def widen (g h : Grouped κ ε) : Grouped κ ε :=
  h.groups.entries.foldl (fun acc (k, e) => acc.widenAt k e) g

/-- Combine the elements that have a counterpart, and drop the others. -/
def combineShared (combine : ε → ε → ε) (g h : Grouped κ ε) : Grouped κ ε :=
  g.rebuild fun e => (h.get? (Grouping.groupKey e)).map (combine e)

def meet (g h : Grouped κ ε) : Grouped κ ε := g.combineShared AbstractDomain.meet h

def narrow (g h : Grouped κ ε) : Grouped κ ε := g.combineShared AbstractDomain.narrow h

instance : AbstractDomain (Grouped κ ε) where
  isBottom := isEmpty
  leq := leq
  equals := equals
  join := join
  widen := widen
  meet := meet
  narrow := narrow

end Grouped
end TaintFlow
