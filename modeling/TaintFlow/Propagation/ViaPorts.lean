import TaintFlow.Frame.Basic
import TaintFlow.Propagation.CallSite
import TaintFlow.Propagation.Diagnostic

/-!
# Ports whose types and values are asked for

A frame may ask that the type or the constant value of some argument become a feature when it
crosses a call. Such a feature always holds on the frame behind the call. Ports that are no
parameter, or lie behind what the caller observed, contribute nothing and are reported.
-/
namespace TaintFlow

/-- What was observed of the parameter that the port addresses. -/
def Root.observed? {α : Type} (port : Root) (observations : List α) : Option α :=
  port.argumentIndex?.bind fun i => observations[i.toNat]?

namespace Frame

/-- The features of the types asked for, in the order of the ports. -/
def viaTypeFeatures (f : Frame) (site : CallSite) : List Feature :=
  f.viaTypePorts.toList.filterMap fun port =>
    (port.observed? site.registerTypes).map viaTypeFeature

/-- The features of the values asked for, in the order of the ports. -/
def viaValueFeatures (f : Frame) (constants : List (Option String)) : List Feature :=
  f.viaValuePorts.toList.filterMap fun port => (port.observed? constants).map viaValueFeature

/-- A report for each port, of types or of values, of which nothing was observed. -/
def invalidPorts (f : Frame) (site : CallSite) (constants : List (Option String)) :
    List Diagnostic :=
  let types := f.viaTypePorts.toList.filter fun port => (port.observed? site.registerTypes).isNone
  let values := f.viaValuePorts.toList.filter fun port => (port.observed? constants).isNone
  types.map (.invalidViaTypePort · site.callee.signature site.registerTypes.length)
    ++ values.map (.invalidViaValuePort · site.callee.signature constants.length)

end Frame
end TaintFlow
