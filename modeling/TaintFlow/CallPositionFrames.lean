import TaintFlow.Propagation.FrameSet
import TaintFlow.Taint.Transform

/-!
# Frames at one call position

Frames of all kinds that share one call position, as they are met while a single call is analysed.
The position means nothing while there are no frames: the first frame that is added, or the first
other value that is joined, brings its own. Putting frames of two positions together is a fault,
and then there is no result.
-/
namespace TaintFlow

/-- Frame sets, one for each kind, at one call position. -/
structure CallPositionFrames where
  position : Option Position := none
  sets : Grouped Kind FrameSet := ∅
deriving DecidableEq, Repr

namespace CallPositionFrames

def empty : CallPositionFrames := {}

instance : EmptyCollection CallPositionFrames := ⟨empty⟩
instance : Inhabited CallPositionFrames := ⟨empty⟩

def top : Except Fault CallPositionFrames := .error (.noTop .callPositionFrames)

def isEmpty (c : CallPositionFrames) : Bool := c.sets.isEmpty

/-- The same frames with their positions disregarded. -/
def toTaint (c : CallPositionFrames) : Taint := ⟨c.sets⟩

def size (c : CallPositionFrames) : Nat := c.sets.size

def frames (c : CallPositionFrames) : List Frame := c.toTaint.frames

def frameCount (c : CallPositionFrames) : Nat := c.toTaint.frameCount

def kinds (c : CallPositionFrames) : List Kind := c.toTaint.kinds

def get? (c : CallPositionFrames) (k : Kind) : Option FrameSet := c.sets.get? k

/-- As for taint, and every frame is at the common position. -/
def Valid (c : CallPositionFrames) : Prop :=
  c.toTaint.Valid ∧ ∀ f ∈ c.frames, f.callPosition = c.position

/-- Add a frame. The first frame brings its position, every other one must be at the same. -/
def add (c : CallPositionFrames) (f : Frame) : Except Fault CallPositionFrames :=
  let sets := c.sets.add (.singleton f)
  if c.isEmpty then .ok ⟨f.callPosition, sets⟩
  else if c.position = f.callPosition then .ok ⟨c.position, sets⟩
  else .error (.positionMismatch c.position f.callPosition)

def ofList (fs : List Frame) : Except Fault CallPositionFrames := fs.foldlM add ∅

/-- Whether the two may be combined: one of them has no frames, or they are at one position. -/
def compatible (c d : CallPositionFrames) : Bool :=
  c.isEmpty || d.isEmpty || decide (c.position = d.position)

/-- The result of an operation on two values that may be combined. -/
def combined {α : Type} (c d : CallPositionFrames) (result : α) : Except Fault α :=
  if compatible c d then .ok result else .error (.positionsDiffer c.position d.position)

/-- The position after `d` has been put to `c`. -/
def adoptedPosition (c d : CallPositionFrames) : Option Position :=
  if c.isEmpty then d.position else c.position

def leq (c d : CallPositionFrames) : Except Fault Bool := combined c d (c.sets.leq d.sets)

def equals (c d : CallPositionFrames) : Except Fault Bool := combined c d (c.sets.equals d.sets)

def join (c d : CallPositionFrames) : Except Fault CallPositionFrames :=
  combined c d ⟨adoptedPosition c d, c.sets.join d.sets⟩

def widen (c d : CallPositionFrames) : Except Fault CallPositionFrames :=
  combined c d ⟨adoptedPosition c d, c.sets.widen d.sets⟩

def meet (c d : CallPositionFrames) : Except Fault CallPositionFrames :=
  combined c d { c with sets := c.sets.meet d.sets }

def narrow (c d : CallPositionFrames) : Except Fault CallPositionFrames :=
  combined c d { c with sets := c.sets.narrow d.sets }

def difference (c d : CallPositionFrames) : Except Fault CallPositionFrames :=
  combined c d { c with sets := c.sets.difference d.sets }

/-- Change every frame. A change must keep the call position for the result to be valid. -/
def map (change : Frame → Frame) (c : CallPositionFrames) : CallPositionFrames :=
  { c with sets := c.sets.map (·.map change) }

/-- Add features to all frames; features that hold nothing change nothing. -/
def addInferredFeatures (features : MayAlways) (c : CallPositionFrames) : CallPositionFrames :=
  if features.isEmpty then c else c.map (·.addInferredFeatures features)

def addLocalPosition (position : Position) (c : CallPositionFrames) : CallPositionFrames :=
  c.map (·.addLocalPosition position)

def setLocalPositions (positions : SortedSet Position) (c : CallPositionFrames) :
    CallPositionFrames :=
  c.map (·.setLocalPositions positions)

/-- Add features and a local position to all frames, each as far as there is something to add. -/
def addInferredFeaturesAndLocalPosition (features : MayAlways) (position : Option Position)
    (c : CallPositionFrames) : CallPositionFrames :=
  if features.isEmpty && position.isNone then c
  else
    c.map fun f =>
      let g := if features.isEmpty then f else f.addInferredFeatures features
      match position with
      | none => g
      | some p => g.addLocalPosition p

def localPositions (c : CallPositionFrames) : SortedSet Position :=
  c.frames.foldl (fun acc f => acc.union f.localPositions) ∅

/-- The frames that the caller sees behind the call; they are at its position. -/
def propagated (c : CallPositionFrames) (site : CallSite) : CallPositionFrames :=
  let sets := Grouped.ofList (c.sets.elements.map (·.propagate site))
  ⟨if sets.isEmpty then none else some site.position, sets⟩

def anomalies (c : CallPositionFrames) (site : CallSite) : List Diagnostic :=
  c.sets.elements.flatMap (·.anomalies site)

def propagate (c : CallPositionFrames) (site : CallSite) (ctx : Context) :
    Except Fault CallPositionFrames × Context :=
  FrameSet.outcome c.sets.elements site (c.propagated site) ctx

/-- Valid frames cross without a fault. -/
theorem propagate_of_valid {c : CallPositionFrames} (h : c.Valid) (site : CallSite)
    (ctx : Context) :
    c.propagate site ctx = (.ok (c.propagated site), ctx.report (c.anomalies site)) :=
  FrameSet.outcome_of_valid h.1.2 site _ ctx

end CallPositionFrames
end TaintFlow
