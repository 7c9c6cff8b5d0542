import TaintFlow.Frame.Printer
import TaintFlow.FrameSet

/-!
# Taint

Frames of all kinds, grouped by kind, wherever they are called from. This is the domain of method
summaries; a summary grows by `join` and `widen`.
-/
namespace TaintFlow

/-- Frame sets, one for each kind. -/
structure Taint where
  sets : Grouped Kind FrameSet := ∅
deriving DecidableEq, Repr

namespace Taint

def empty : Taint := {}

instance : EmptyCollection Taint := ⟨empty⟩
instance : Inhabited Taint := ⟨empty⟩

def top : Except Fault Taint := .error (.noTop .taint)

/-- Every set stands under its own kind and is not empty, and every frame in it has that kind and
stands under its own key. -/
def Valid (t : Taint) : Prop := t.sets.Valid ∧ ∀ s ∈ t.sets.elements, s.Valid

def isEmpty (t : Taint) : Bool := t.sets.isEmpty

def size (t : Taint) : Nat := t.sets.size

def frames (t : Taint) : List Frame := t.sets.elements.flatMap FrameSet.toList

def frameCount (t : Taint) : Nat := t.sets.elements.foldl (fun n s => n + s.size) 0

def kinds (t : Taint) : List Kind := t.sets.elements.map FrameSet.kind

def get? (t : Taint) (k : Kind) : Option FrameSet := t.sets.get? k

def contains (t : Taint) (k : Kind) : Bool := t.sets.contains k

def addFrames (t : Taint) (s : FrameSet) : Taint := ⟨t.sets.add s⟩

def add (t : Taint) (f : Frame) : Taint := t.addFrames (.singleton f)

def ofList (fs : List Frame) : Taint := fs.foldl add ∅

def leq (t u : Taint) : Bool := t.sets.leq u.sets

def equals (t u : Taint) : Bool := t.sets.equals u.sets

def join (t u : Taint) : Taint := ⟨t.sets.join u.sets⟩

def widen (t u : Taint) : Taint := ⟨t.sets.widen u.sets⟩

def meet (t u : Taint) : Taint := ⟨t.sets.meet u.sets⟩

def narrow (t u : Taint) : Taint := ⟨t.sets.narrow u.sets⟩

instance : AbstractDomain Taint where
  isBottom := isEmpty
  leq := leq
  equals := equals
  join := join
  widen := widen
  meet := meet
  narrow := narrow

/-- What is left when the frames that `u` implies are taken away. -/
def difference (t u : Taint) : Taint := ⟨t.sets.difference u.sets⟩

/-- The kinds that satisfy `p`, with their frames. -/
def filter (p : FrameSet → Bool) (t : Taint) : Taint := ⟨t.sets.filter p⟩

/-- The frames of each kind as a taint of their own. -/
def partitionByKind (t : Taint) : List (Kind × Taint) :=
  t.sets.elements.map fun s => (s.kind, addFrames ∅ s)

/-- The join of the features of all frames. -/
def featuresJoined (t : Taint) : MayAlways :=
  t.frames.foldl (fun acc f => acc.join f.features) .bottom

/-- The texts of the frames in ascending order, in braces. -/
def text (t : Taint) : String :=
  let texts := (t.frames.map Frame.text).mergeSort fun a b => decide (a ≤ b)
  "\x7b" ++ ", ".intercalate texts ++ "\x7d"

end Taint
end TaintFlow
