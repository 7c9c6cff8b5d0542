import TaintFlow.Feature.Set

/-!
# May and always features

What is known of the features that hold where several paths meet: those that may hold, because they
hold on some path, and those that always hold, because they hold on every path. Bottom says that no
path has been seen; it differs from the empty sets, which tell of a path without features. Joining
paths keeps the union of the may-features and the intersection of the always-features.

The operations keep every always-feature a may-feature (`WellFormed`), but a value read from a
document need not have that property, and all operations are defined without it.
-/
namespace TaintFlow

/-- Features that may hold and features that always hold. -/
inductive MayAlways where
  /-- No path has been seen. -/
  | bottom
  | sets (may always : FeatureSet)
deriving DecidableEq, Repr

namespace MayAlways

instance : Inhabited MayAlways := ⟨bottom⟩

/-- Bottom, or every always-feature is a may-feature. -/
def WellFormed : MayAlways → Prop
  | bottom => True
  | sets may always => ∀ f, f ∈ always → f ∈ may

def empty : MayAlways := sets ∅ ∅

/-- Features that hold on the only path. -/
def ofAlways (fs : FeatureSet) : MayAlways := sets fs fs

def ofMay (fs : FeatureSet) : MayAlways := sets fs ∅

/-- The given features; an always-feature is a may-feature without being said so. -/
def ofSets (may always : FeatureSet) : MayAlways := sets (may.union always) always

def may : MayAlways → FeatureSet
  | bottom => ∅
  | sets may _ => may

def always : MayAlways → FeatureSet
  | bottom => ∅
  | sets _ always => always

def isBottom : MayAlways → Bool
  | bottom => true
  | sets _ _ => false

def isEmpty (m : MayAlways) : Bool := m.may.isEmpty

def addMay (m : MayAlways) (f : Feature) : MayAlways := sets (m.may.insert f) m.always

def addAlways (m : MayAlways) (f : Feature) : MayAlways :=
  sets (m.may.insert f) (m.always.insert f)

/-- Add always-features one by one; adding none leaves bottom as it is. -/
def addAllAlways (m : MayAlways) (fs : List Feature) : MayAlways := fs.foldl addAlways m

/-- The features of two stretches of one path: those of `e` hold besides those of `m`. -/
def compose (m e : MayAlways) : MayAlways :=
  match m, e with
  | m, bottom => m
  | bottom, e => e
  | sets may always, sets may' always' => sets (may.union may') (always.union always')

def leq : MayAlways → MayAlways → Bool
  | bottom, _ => true
  | sets _ _, bottom => false
  | sets may always, sets may' always' => may.isSubset may' && always'.isSubset always

def join (a b : MayAlways) : MayAlways :=
  match a, b with
  | a, bottom => a
  | bottom, b => b
  | sets may always, sets may' always' => sets (may.union may') (always.inter always')

/-- The meet; it is bottom when a feature that must always hold may not hold at all. -/
def meet (a b : MayAlways) : MayAlways :=
  match a, b with
  | bottom, _ => bottom
  | _, bottom => bottom
  | sets may always, sets may' always' =>
    let may := may.inter may'
    let always := always.union always'
    if always.isSubset may then sets may always else bottom

instance : AbstractDomain MayAlways where
  isBottom := isBottom
  leq := leq
  equals a b := decide (a = b)
  join := join
  meet := meet

end MayAlways
end TaintFlow
