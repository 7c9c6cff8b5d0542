import TaintFlow.Name
import TaintFlow.Position

/-!
# Misuse of the domains

Faults are mistakes of a caller: frames of different kinds or of different call positions that are
put together, or a top element asked for. An operation that finds a fault has no result.
-/
namespace TaintFlow

/-- The domains that stand for summaries, and have no top element. -/
inductive SummaryDomain where
  | taint
  | callPositionFrames
deriving DecidableEq, Repr

inductive Fault where
  /-- A frame of kind `frame` was added to frames of kind `group`. -/
  | kindMismatch (frame group : Kind)
  /-- A frame at the call position `frame` was added to frames at `group`. -/
  | positionMismatch (group frame : Option Position)
  | positionsDiffer (left right : Option Position)
  | noTop (domain : SummaryDomain)
deriving DecidableEq, Repr

def optionalPositionText : Option Position → String
  | none => "None"
  | some p => "Some(" ++ p.debugText ++ ")"

def SummaryDomain.text : SummaryDomain → String
  | .taint => "Taint"
  | .callPositionFrames => "CallPositionFrames"

namespace Fault

/-- Two values that were expected to be equal, below the reason. -/
def unequalText (reason left right : String) : String :=
  "assertion `left == right` failed: " ++ reason ++ "\n  left: " ++ left ++ "\n right: " ++ right

def message : Fault → String
  | kindMismatch frame group =>
    unequalText
      ("frame of kind `" ++ frame.text ++ "` added to frames of kind `" ++ group.text ++ "`")
      frame.debugText group.debugText
  | positionMismatch group frame =>
    unequalText "frame call position does not match the group's call position"
      (optionalPositionText group) (optionalPositionText frame)
  | positionsDiffer left right =>
    "combining frames at call position " ++ optionalPositionText left ++ " with frames at "
      ++ optionalPositionText right
  | noTop domain =>
    "internal error: entered unreachable code: " ++ domain.text ++ " has no top element"

end Fault
end TaintFlow
