import TaintFlow.AccessPath.Printer

/-!
# Diagnostics

Anomalies found while frames cross a call. They do not keep the other frames from crossing: what is
malformed contributes nothing, and a diagnostic records it.
-/
namespace TaintFlow

inductive Diagnostic where
  /-- A port whose type was asked for is not a parameter, or lies behind the last register. -/
  | invalidViaTypePort (port : Root) (callee : Signature) (registerCount : Nat)
  /-- A port whose value was asked for is not a parameter, or lies behind the last constant. -/
  | invalidViaValuePort (port : Root) (callee : Signature) (argumentCount : Nat)
  /-- A producer declaration without canonical names, which is dropped. -/
  | producerWithoutNames (kind : Kind) (frameText : String)
deriving DecidableEq, Repr

namespace Diagnostic

def isError : Diagnostic → Bool
  | producerWithoutNames _ _ => false
  | _ => true

def invalidPortText (port : Root) (ports : String) (callee : Signature) : String :=
  "Invalid port " ++ port.text ++ " provided for " ++ ports ++ " ports of method "
    ++ callee.className ++ "." ++ callee.methodName

def text : Diagnostic → String
  | invalidViaTypePort port callee _ => invalidPortText port "via_type_of" callee
  | invalidViaValuePort port callee _ => invalidPortText port "via_value_of" callee
  | producerWithoutNames _ frameText =>
    "Encountered crtex frame without canonical names. Frame: `" ++ frameText ++ "`"

end Diagnostic
end TaintFlow
