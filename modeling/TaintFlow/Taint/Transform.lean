import TaintFlow.Taint.Basic

/-!
# Transformations of taint

Operations that change frames, or their kinds. Frames whose keys come to coincide are merged.
-/
namespace TaintFlow.Taint

def map (change : Frame → Frame) (t : Taint) : Taint := ⟨t.sets.map (·.map change)⟩

/-- Add features to all frames; features that hold nothing change nothing. -/
def addInferredFeatures (features : MayAlways) (t : Taint) : Taint :=
  if features.isEmpty then t else t.map (·.addInferredFeatures features)

def addLocalPosition (position : Position) (t : Taint) : Taint :=
  t.map (·.addLocalPosition position)

def setLocalPositions (positions : SortedSet Position) (t : Taint) : Taint :=
  t.map (·.setLocalPositions positions)

/-- Add features and a local position to a frame, each as far as there is something to add. -/
def annotate (features : MayAlways) (position : Option Position) (f : Frame) : Frame :=
  let f := if features.isEmpty then f else f.addInferredFeatures features
  position.elim f f.addLocalPosition

def addInferredFeaturesAndLocalPosition (features : MayAlways) (position : Option Position)
    (t : Taint) : Taint :=
  if features.isEmpty && position.isNone then t else t.map (annotate features position)

/-- A leaf frame as it starts to flow at a position: all its features are inferred features. -/
def startAt (position : Position) (f : Frame) : Frame :=
  { f with
    callPosition := some position
    distance := 0
    inferred := f.features
    locallyInferred := .bottom
    userFeatures := ∅ }

/-- The leaf frames alone, as they start to flow at a position. -/
def attachPosition (position : Position) (t : Taint) : Taint :=
  ofList <| (t.frames.filter Frame.isLeaf).map (startAt position)

/-- The frames that take the place of a set when its kind is replaced by `kinds`. -/
def relabel (features : MayAlways) (kinds : List Kind) (s : FrameSet) : List Frame :=
  kinds.flatMap fun kind => s.toList.map fun f => (f.withKind kind).addInferredFeatures features

/-- Replace kinds. A kind that is mapped to itself alone keeps its frames, a kind that is mapped to
nothing loses them, and all other frames are relabelled and given the features of their old kind. -/
def transformKinds (mapKind : Kind → List Kind) (featuresOf : Kind → MayAlways) (t : Taint) :
    Taint :=
  t.sets.elements.foldl (fun acc s =>
    let kinds := mapKind s.kind
    if kinds = [s.kind] then acc.addFrames s
    else (relabel (featuresOf s.kind) kinds s).foldl add acc) ∅

/-- Append an element to the ports of the frames whose kind satisfies `p`. -/
def appendPort (element : PathElement) (p : Kind → Bool) (t : Taint) : Taint :=
  ⟨t.sets.map fun s => if p s.kind then s.map (·.appendPort element) else s⟩

/-- Recompute the call position and the local positions of a frame that has a callee. -/
def movePositions (newCall : Signature → AccessPath → Option Position → Position)
    (newLocal : SortedSet Position → SortedSet Position) (f : Frame) : Frame :=
  match f.callee with
  | none => f
  | some callee =>
    { f with
      callPosition := some (newCall callee f.port f.callPosition)
      localPositions := newLocal f.localPositions }

def updateNonLeafPositions (newCall : Signature → AccessPath → Option Position → Position)
    (newLocal : SortedSet Position → SortedSet Position) (t : Taint) : Taint :=
  t.map (movePositions newCall newLocal)

/-- The frames whose callee, port and kind are valid. -/
def filterInvalidFrames (valid : Option Signature → AccessPath → Kind → Bool) (t : Taint) : Taint :=
  ⟨t.sets.map fun s => s.filter fun f => valid f.callee f.port f.kind⟩

end TaintFlow.Taint
