import TaintFlow.AccessPath.Basic
import TaintFlow.CanonicalName
import TaintFlow.Feature.MayAlways
import TaintFlow.Position

/-!
# Frames

A frame is one taint fact: taint of `kind` reaches `port` of `callee`, called at `callPosition`,
`distance` calls away from a declared source or sink. A leaf frame has no callee; it comes from a
declaration. A frame with canonical names takes part in matching across artifacts (CRTEX).

Frames are identified by `key` within their kind. The order, the joins and the meets of frames look
at the remaining components only, and are meant for frames with equal kinds and keys.
-/
namespace TaintFlow

structure Frame where
  kind : Kind
  port : AccessPath
  callee : Option Signature := none
  fieldCallee : Option Field := none
  callPosition : Option Position := none
  distance : UInt32 := 0
  origins : SortedSet Signature := ∅
  fieldOrigins : SortedSet Field := ∅
  inferred : MayAlways := .bottom
  locallyInferred : MayAlways := .bottom
  userFeatures : FeatureSet := ∅
  viaTypePorts : SortedSet Root := ∅
  viaValuePorts : SortedSet Root := ∅
  localPositions : SortedSet Position := ∅
  canonicalNames : SortedSet CanonicalName := ∅
deriving DecidableEq, Repr

/-- What identifies a frame among the frames of its kind. -/
structure FrameKey where
  port : AccessPath
  callee : Option Signature
  fieldCallee : Option Field
  callPosition : Option Position
  isCrtex : Bool
deriving DecidableEq, Repr

namespace FrameKey

def order : FrameKey → FrameKey → Ordering :=
  compareLex (compareOn port) <| compareLex (compareOn callee) <|
    compareLex (compareOn fieldCallee) <| compareLex (compareOn callPosition) (compareOn isCrtex)

instance : Ord FrameKey := ⟨order⟩

instance : Std.TransOrd FrameKey := by
  show Std.TransCmp order
  unfold order
  infer_instance

instance : Std.LawfulEqOrd FrameKey where
  eq_of_compare {a b} h := by
    have h' : (compare a.port b.port).then ((compare a.callee b.callee).then
      ((compare a.fieldCallee b.fieldCallee).then
        ((compare a.callPosition b.callPosition).then (compare a.isCrtex b.isCrtex)))) = .eq := h
    simp only [Ordering.then_eq_eq, Std.LawfulEqCmp.compare_eq_iff_eq] at h'
    cases a; cases b; simp_all

end FrameKey

namespace Frame

def declared (kind : Kind) (port : AccessPath) : Frame := { kind, port }

def isLeaf (f : Frame) : Bool := f.callee.isNone

def isCrtex (f : Frame) : Bool := !f.canonicalNames.isEmpty

/-- A leaf that is to be matched across artifacts and has not crossed a call yet. -/
def isProducerDeclaration (f : Frame) : Bool := f.isLeaf && (f.port.root.isAnchor || f.isCrtex)

/-- All features: the inferred ones, then the locally inferred ones, with the features given by the
user always holding. -/
def features (f : Frame) : MayAlways :=
  (f.inferred.compose f.locallyInferred).addAllAlways f.userFeatures.toList

def key (f : Frame) : FrameKey :=
  ⟨f.port, f.callee, f.fieldCallee, f.callPosition, f.isCrtex⟩

def addInferredFeatures (features : MayAlways) (f : Frame) : Frame :=
  { f with locallyInferred := f.locallyInferred.compose features }

def addLocalPosition (position : Position) (f : Frame) : Frame :=
  { f with localPositions := f.localPositions.insert position }

def setLocalPositions (positions : SortedSet Position) (f : Frame) : Frame :=
  { f with localPositions := positions }

def appendPort (element : PathElement) (f : Frame) : Frame :=
  { f with port := f.port.append element }

def withKind (kind : Kind) (f : Frame) : Frame := { f with kind }

/-- Whether `g` says at least as much as `f`: it is as near, and holds every component of `f`. -/
def leq (f g : Frame) : Bool :=
  decide (g.distance ≤ f.distance)
    && f.origins.isSubset g.origins
    && f.fieldOrigins.isSubset g.fieldOrigins
    && f.inferred.leq g.inferred
    && f.locallyInferred.leq g.locallyInferred
    && f.userFeatures.isSubset g.userFeatures
    && f.viaTypePorts.isSubset g.viaTypePorts
    && f.viaValuePorts.isSubset g.viaValuePorts
    && f.localPositions.isSubset g.localPositions
    && f.canonicalNames.isSubset g.canonicalNames

/-- The nearer distance, and what either frame holds. -/
def join (f g : Frame) : Frame :=
  { f with
    distance := min f.distance g.distance
    origins := f.origins.union g.origins
    fieldOrigins := f.fieldOrigins.union g.fieldOrigins
    inferred := f.inferred.join g.inferred
    locallyInferred := f.locallyInferred.join g.locallyInferred
    userFeatures := f.userFeatures.union g.userFeatures
    viaTypePorts := f.viaTypePorts.union g.viaTypePorts
    viaValuePorts := f.viaValuePorts.union g.viaValuePorts
    localPositions := f.localPositions.union g.localPositions
    canonicalNames := f.canonicalNames.union g.canonicalNames }

/-- The farther distance, and what both frames hold. -/
def meet (f g : Frame) : Frame :=
  { f with
    distance := max f.distance g.distance
    origins := f.origins.inter g.origins
    fieldOrigins := f.fieldOrigins.inter g.fieldOrigins
    inferred := f.inferred.meet g.inferred
    locallyInferred := f.locallyInferred.meet g.locallyInferred
    userFeatures := f.userFeatures.inter g.userFeatures
    viaTypePorts := f.viaTypePorts.inter g.viaTypePorts
    viaValuePorts := f.viaValuePorts.inter g.viaValuePorts
    localPositions := f.localPositions.inter g.localPositions
    canonicalNames := f.canonicalNames.inter g.canonicalNames }

/-- No frame is bottom: even a frame without any origin or feature states that taint arrives. -/
instance : Grouping Frame FrameKey where
  isBottom _ := false
  leq := leq
  equals f g := decide (f = g)
  join := join
  meet := meet
  groupKey := key

end Frame
end TaintFlow
