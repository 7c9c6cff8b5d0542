import TaintFlow.AccessPath.Basic
import TaintFlow.Position

/-!
# Call sites

What a caller knows about the call that frames cross: the callee and its port, the position, and
what was observed of the arguments.
-/
namespace TaintFlow

/-- One call edge. -/
structure CallSite where
  callee : Method
  port : AccessPath
  position : Position
  /-- Frames at this distance or beyond do not cross. -/
  maxDistance : UInt32
  /-- Type of each argument register, as far as it is known. -/
  registerTypes : List (Option DexType) := []
  /-- Value of each argument, where it is a constant. -/
  constants : List (Option String) := []
deriving DecidableEq, Repr

end TaintFlow
