import TaintFlow.Collection.SortedSet
import TaintFlow.Domain
import TaintFlow.Name

/-!
# Sets of features

The powerset domain of features: the order is inclusion, bottom is the empty set.
-/
namespace TaintFlow

abbrev FeatureSet := SortedSet Feature

instance : AbstractDomain FeatureSet where
  isBottom s := s.isEmpty
  leq s t := s.isSubset t
  equals s t := decide (s = t)
  join s t := s.union t
  meet s t := s.inter t

end TaintFlow
