import TaintFlow.Config.Basic
import TaintFlow.Propagation.CallSite
import TaintFlow.Propagation.Diagnostic

/-!
# Propagation contexts

The configuration under which frames propagate, and the diagnostics held since they were last
taken. A context whose configuration does not collect diagnostics never holds any.
-/
namespace TaintFlow

structure Context where
  config : PropagationConfig
  diagnostics : List Diagnostic := []
deriving DecidableEq, Repr

namespace Context

/-- A call site at which the configured distance is the greatest. -/
def callSite (c : Context) (callee : Method) (port : AccessPath) (position : Position) : CallSite :=
  { callee, port, position, maxDistance := c.config.maxDistance }

def report (c : Context) (ds : List Diagnostic) : Context :=
  if c.config.collectDiagnostics then { c with diagnostics := c.diagnostics ++ ds } else c

/-- Give out the diagnostics held, and hold none. -/
def takeDiagnostics (c : Context) : List Diagnostic × Context :=
  (c.diagnostics, { c with diagnostics := [] })

end Context
end TaintFlow
