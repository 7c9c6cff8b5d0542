import TaintFlow.Fault
import TaintFlow.Frame.Basic
import TaintFlow.Grouped

/-!
# Frames of one kind

A frame set holds frames of one kind, merged by key. An empty set is bottom whatever its kind, and
a bottom set that is joined with another takes over the other's kind.
-/
namespace TaintFlow

structure FrameSet where
  kind : Kind
  frames : Grouped FrameKey Frame := ∅
deriving DecidableEq, Repr

namespace FrameSet

def empty (kind : Kind) : FrameSet := { kind }

/-- A frame alone, filed under its own kind. -/
def singleton (f : Frame) : FrameSet := ⟨f.kind, Grouped.ofList [f]⟩

def isEmpty (s : FrameSet) : Bool := s.frames.isEmpty

def size (s : FrameSet) : Nat := s.frames.size

def toList (s : FrameSet) : List Frame := s.frames.elements

def get? (s : FrameSet) (k : FrameKey) : Option Frame := s.frames.get? k

/-- Every frame has the kind of the set and is stored under its own key. -/
def Valid (s : FrameSet) : Prop := s.frames.Valid ∧ ∀ f ∈ s.toList, f.kind = s.kind

/-- Add a frame; a frame of another kind is refused. -/
def add (s : FrameSet) (f : Frame) : Except Fault FrameSet :=
  if f.kind = s.kind then .ok { s with frames := s.frames.add f }
  else .error (.kindMismatch f.kind s.kind)

/-- Collect frames under a kind; the first frame of another kind is refused. -/
def ofList (kind : Kind) (fs : List Frame) : Except Fault FrameSet := fs.foldlM add (empty kind)

/-- Change each frame. A change must keep the kind for the result to be valid. -/
def map (change : Frame → Frame) (s : FrameSet) : FrameSet :=
  { s with frames := s.frames.map change }

def filter (p : Frame → Bool) (s : FrameSet) : FrameSet := { s with frames := s.frames.filter p }

def leq (s t : FrameSet) : Bool := s.isEmpty || (decide (s.kind = t.kind) && s.frames.leq t.frames)

def equals (s t : FrameSet) : Bool :=
  if s.isEmpty || t.isEmpty then s.isEmpty && t.isEmpty
  else decide (s.kind = t.kind) && s.frames.equals t.frames

def join (s t : FrameSet) : FrameSet :=
  if t.isEmpty then s
  else if s.isEmpty then t
  else { s with frames := s.frames.join t.frames }

def widen (s t : FrameSet) : FrameSet :=
  if s.isEmpty then t
  else if t.isEmpty then s
  else { s with frames := s.frames.widen t.frames }

/-- The meet; sets of different kinds have no frame in common. -/
def meet (s t : FrameSet) : FrameSet :=
  if s.kind = t.kind then { s with frames := s.frames.meet t.frames } else empty s.kind

def narrow (s t : FrameSet) : FrameSet :=
  if s.kind = t.kind then { s with frames := s.frames.narrow t.frames } else empty s.kind

def difference (s t : FrameSet) : FrameSet := { s with frames := s.frames.difference t.frames }

instance : Grouping FrameSet Kind where
  isBottom := isEmpty
  leq := leq
  equals := equals
  join := join
  widen := widen
  meet := meet
  narrow := narrow
  groupKey := kind
  difference := difference

end FrameSet
end TaintFlow
