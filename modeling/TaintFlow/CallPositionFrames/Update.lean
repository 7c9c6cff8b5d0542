import TaintFlow.CallPositionFrames

/-!
# Updates in place

The operations on frames at a call position as they change a value that a caller holds. An update is
a sequence of steps, and a fault keeps what the steps in front of it have changed. Every operation
looks for faults before it changes anything, so it is all or nothing: the value becomes the result of
the operation, or there is a fault and the value is as it was.
-/
namespace TaintFlow.CallPositionFrames

/-- Steps that change one value, up to a fault. -/
abbrev Update (α : Type) := ExceptT Fault (StateM CallPositionFrames) α

/-- What an operation does to the value `c` when it changes nothing unless it has a result. -/
def allOrNothing (c : CallPositionFrames) :
    Except Fault CallPositionFrames → Except Fault Unit × CallPositionFrames
  | .ok d => (.ok (), d)
  | .error fault => (.error fault, c)

namespace Update

variable {α β : Type}

/-- The outcome of an update of the value `c`, and what the value is afterwards. -/
def apply (u : Update α) (c : CallPositionFrames) : Except Fault α × CallPositionFrames :=
  StateT.run (ExceptT.run u) c

theorem apply_bind (u : Update α) (next : α → Update β) (c : CallPositionFrames) :
    (u >>= next).apply c =
      match u.apply c with
      | (.ok a, d) => (next a).apply d
      | (.error fault, d) => (.error fault, d) := by
  simp only [apply, bind, ExceptT.bind, ExceptT.bindCont, ExceptT.run, ExceptT.mk, StateT.bind,
    StateT.run]
  cases u c with
  | mk outcome d => cases outcome <;> rfl

/-- Stop with a fault unless frames of `d` may be put to the value. -/
def requireCompatible (d : CallPositionFrames) : Update Unit := do
  let c ← get
  unless compatible c d do
    throw (.positionsDiffer c.position d.position)

theorem apply_requireCompatible (c d : CallPositionFrames) :
    (requireCompatible d).apply c =
      if compatible c d then (.ok (), c)
      else (.error (.positionsDiffer c.position d.position), c) := by
  change (if compatible c d then pure () else throw _ : Update Unit).apply c = _
  split <;> rfl

/-- Take over the position of `d` while there are no frames. -/
def adoptPosition (d : CallPositionFrames) : Update Unit :=
  modify fun c => { c with position := adoptedPosition c d }

def changeSets (change : Grouped Kind FrameSet → Grouped Kind FrameSet) : Update Unit :=
  modify fun c => { c with sets := change c.sets }

/-- Take over the position of `f` while there are no frames, and stop with a fault unless `f` is at
the position that there is otherwise. -/
def takePosition (f : Frame) : Update Unit := do
  let c ← get
  if c.isEmpty then
    set { c with position := f.callPosition }
  else
    unless c.position = f.callPosition do
      throw (.positionMismatch c.position f.callPosition)

theorem apply_takePosition (f : Frame) (c : CallPositionFrames) :
    (takePosition f).apply c =
      if c.isEmpty then (.ok (), { c with position := f.callPosition })
      else if c.position = f.callPosition then (.ok (), c)
      else (.error (.positionMismatch c.position f.callPosition), c) := by
  change (if c.isEmpty then set _ else if c.position = f.callPosition then pure () else throw _ :
    Update Unit).apply c = _
  split
  · rfl
  · split <;> rfl

def add (f : Frame) : Update Unit := do
  takePosition f
  changeSets (·.add (.singleton f))

variable (operation : Grouped Kind FrameSet → Grouped Kind FrameSet → Grouped Kind FrameSet)

/-- Put frames of `d` to the value, which takes over the position if it has none of its own. -/
def enlarge (d : CallPositionFrames) : Update Unit := do
  requireCompatible d
  adoptPosition d
  changeSets (operation · d.sets)

/-- Take frames away from the value by means of `d`; the value keeps its position. -/
def reduce (d : CallPositionFrames) : Update Unit := do
  requireCompatible d
  changeSets (operation · d.sets)

def join : CallPositionFrames → Update Unit := enlarge Grouped.join

def widen : CallPositionFrames → Update Unit := enlarge Grouped.widen

def meet : CallPositionFrames → Update Unit := reduce Grouped.meet

def narrow : CallPositionFrames → Update Unit := reduce Grouped.narrow

def difference : CallPositionFrames → Update Unit := reduce Grouped.difference

theorem apply_add (f : Frame) (c : CallPositionFrames) :
    (add f).apply c = allOrNothing c (c.add f) := by
  rw [add, apply_bind, apply_takePosition, CallPositionFrames.add]
  cases c.isEmpty with
  | true => rfl
  | false =>
      by_cases hposition : c.position = f.callPosition
      · simp only [if_pos hposition]
        rfl
      · simp only [if_neg hposition]
        rfl

theorem apply_enlarge (c d : CallPositionFrames) :
    (enlarge operation d).apply c =
      allOrNothing c (combined c d ⟨adoptedPosition c d, operation c.sets d.sets⟩) := by
  rw [enlarge, apply_bind, apply_requireCompatible]
  unfold combined
  cases compatible c d <;> rfl

theorem apply_reduce (c d : CallPositionFrames) :
    (reduce operation d).apply c =
      allOrNothing c (combined c d { c with sets := operation c.sets d.sets }) := by
  rw [reduce, apply_bind, apply_requireCompatible]
  unfold combined
  cases compatible c d <;> rfl

end Update
end TaintFlow.CallPositionFrames
