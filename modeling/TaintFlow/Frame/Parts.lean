import TaintFlow.Frame.Basic

/-!
# Putting frames together

A frame is described by its kind, its port and a list of parts. Parts that are sets add up; of the
other parts the last one of a sort counts. What no part mentions is absent or empty.
-/
namespace TaintFlow

/-- One component of a frame, or members for it. -/
inductive FramePart where
  | callee (s : Signature)
  | fieldCallee (n : Field)
  | callPosition (p : Position)
  | distance (n : UInt32)
  | origins (ss : SortedSet Signature)
  | fieldOrigins (ns : SortedSet Field)
  | inferred (features : MayAlways)
  | locallyInferred (features : MayAlways)
  | userFeatures (features : FeatureSet)
  | viaTypePorts (ports : SortedSet Root)
  | viaValuePorts (ports : SortedSet Root)
  | localPositions (ps : SortedSet Position)
  | canonicalNames (ns : SortedSet CanonicalName)
deriving DecidableEq, Repr

namespace Frame

def withPart (f : Frame) : FramePart → Frame
  | .callee s => { f with callee := some s }
  | .fieldCallee n => { f with fieldCallee := some n }
  | .callPosition p => { f with callPosition := some p }
  | .distance n => { f with distance := n }
  | .origins ss => { f with origins := f.origins.union ss }
  | .fieldOrigins ns => { f with fieldOrigins := f.fieldOrigins.union ns }
  | .inferred features => { f with inferred := features }
  | .locallyInferred features => { f with locallyInferred := features }
  | .userFeatures features => { f with userFeatures := f.userFeatures.union features }
  | .viaTypePorts ports => { f with viaTypePorts := f.viaTypePorts.union ports }
  | .viaValuePorts ports => { f with viaValuePorts := f.viaValuePorts.union ports }
  | .localPositions ps => { f with localPositions := f.localPositions.union ps }
  | .canonicalNames ns => { f with canonicalNames := f.canonicalNames.union ns }

def ofParts (kind : Kind) (port : AccessPath) (parts : List FramePart) : Frame :=
  parts.foldl withPart (declared kind port)

end Frame
end TaintFlow
