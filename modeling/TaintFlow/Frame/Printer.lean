import TaintFlow.AccessPath.Printer
import TaintFlow.Frame.Basic

/-!
# The text of frames

A frame is written on one line with its kind and port first. Components that are absent or empty
are left out, and the members of a set stand in braces in ascending order.
-/
namespace TaintFlow.Frame

/-- `, label={a, b}`, or nothing for no items. -/
def setText (label : String) (items : List String) : String :=
  if items.isEmpty then "" else ", " ++ label ++ "=\x7b" ++ ", ".intercalate items ++ "\x7d"

/-- `, label=value`, or nothing for no value. -/
def optionText (label : String) : Option String → String
  | none => ""
  | some value => ", " ++ label ++ "=" ++ value

def backquoted (s : String) : String := "`" ++ s ++ "`"

def text (f : Frame) : String :=
  String.join [
    "Frame(kind=", backquoted f.kind.text, ", callee_port=", f.port.text,
    optionText "callee" (f.callee.map fun s => backquoted s.text),
    optionText "field_callee" (f.fieldCallee.map fun n => backquoted n.text),
    optionText "call_position" (f.callPosition.map Position.text),
    ", distance=", toString f.distance.toNat,
    setText "origins" (f.origins.toList.map Signature.text),
    setText "field_origins" (f.fieldOrigins.toList.map Name.text),
    setText "may_features" (f.features.may.toList.map Name.text),
    setText "always_features" (f.features.always.toList.map Name.text),
    setText "via_type_of" (f.viaTypePorts.toList.map Root.text),
    setText "via_value_of" (f.viaValuePorts.toList.map Root.text),
    setText "local_positions" (f.localPositions.toList.map Position.text),
    setText "canonical_names" (f.canonicalNames.toList.map CanonicalName.text),
    ")"]

end TaintFlow.Frame
