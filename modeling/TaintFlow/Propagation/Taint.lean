import TaintFlow.Propagation.FrameSet
import TaintFlow.Taint.Basic

/-!
# Taint across a call

Kinds propagate independently of each other. Features of the call instruction itself hold on every
frame behind the call.
-/
namespace TaintFlow

/-- The frames of one kind behind the call, with the features of the call instruction. -/
def FrameSet.propagateWith (extra : MayAlways) (site : CallSite) (s : FrameSet) : FrameSet :=
  let propagated := s.propagate site
  if extra.isEmpty then propagated
  else propagated.map fun f => { f with inferred := f.inferred.compose extra }

namespace Taint

/-- The taint that the caller sees behind the call. -/
def propagated (t : Taint) (site : CallSite) (extra : MayAlways) : Taint :=
  ⟨Grouped.ofList (t.sets.elements.map (·.propagateWith extra site))⟩

def anomalies (t : Taint) (site : CallSite) : List Diagnostic :=
  t.sets.elements.flatMap (·.anomalies site)

def propagate (t : Taint) (site : CallSite) (extra : MayAlways) (c : Context) :
    Except Fault Taint × Context :=
  FrameSet.outcome t.sets.elements site (t.propagated site extra) c

/-- Valid taint crosses without a fault. -/
theorem propagate_of_valid {t : Taint} (h : t.Valid) (site : CallSite) (extra : MayAlways)
    (c : Context) :
    t.propagate site extra c = (.ok (t.propagated site extra), c.report (t.anomalies site)) :=
  FrameSet.outcome_of_valid h.2 site _ c

end Taint
end TaintFlow
