import TaintFlow.Json.Printer
import TaintFlow.Propagation.Diagnostic
import TaintFlow.Taint.Basic

/-!
# Writing summaries

Frames, taint and diagnostics as JSON. A frame leaves out what is absent or empty,
but not its distance, and not a feature set without features, because that differs from bottom.
Sets are written in ascending order, and the frames of taint in the order of their texts.
-/
namespace TaintFlow

def Name.toJson {v : Vocabulary} (n : Name v) : Json := .string n.text

def Signature.toJson (s : Signature) : Json := .string s.text

def Root.toJson (r : Root) : Json := .string r.text

def AccessPath.toJson (p : AccessPath) : Json := .string p.text

def Position.toJson (p : Position) : Json :=
  .object (("line", .integer p.line.toInt) ::
    (p.path.map fun path => ("path", Json.string path)).toList)

def CanonicalName.toJson : CanonicalName → Json
  | template s => .object [("template", .string s)]
  | instantiated s => .object [("instantiated", .string s)]

def SortedSet.toJson {α : Type} [Ord α] (write : α → Json) (s : SortedSet α) : Json :=
  .array (s.toList.map write)

def MayAlways.toJson : MayAlways → Json
  | bottom => .null
  | sets may always =>
    .object [("always", always.toJson Name.toJson), ("may", may.toJson Name.toJson)]

namespace Frame

/-- A field that is left out when there is no value. -/
def optionalField {α : Type} (key : String) (write : α → Json) (value : Option α) :
    List (String × Json) :=
  (value.map fun a => (key, write a)).toList

/-- A field that is left out when the set is empty. -/
def setField {α : Type} [Ord α] (key : String) (write : α → Json) (s : SortedSet α) :
    List (String × Json) :=
  if s.isEmpty then [] else [(key, s.toJson write)]

/-- A field that is left out when the features are bottom. -/
def featuresField (key : String) (features : MayAlways) : List (String × Json) :=
  if features.isBottom then [] else [(key, features.toJson)]

/-- The fields that are written, in ascending order of their keys. -/
def jsonFields (f : Frame) : List (String × Json) :=
  optionalField "call_position" Position.toJson f.callPosition
    ++ optionalField "callee" Signature.toJson f.callee
    ++ [("callee_port", f.port.toJson)]
    ++ setField "canonical_names" CanonicalName.toJson f.canonicalNames
    ++ [("distance", .ofNat f.distance.toNat)]
    ++ optionalField "field_callee" Name.toJson f.fieldCallee
    ++ setField "field_origins" Name.toJson f.fieldOrigins
    ++ featuresField "inferred_features" f.inferred
    ++ [("kind", f.kind.toJson)]
    ++ setField "local_positions" Position.toJson f.localPositions
    ++ featuresField "locally_inferred_features" f.locallyInferred
    ++ setField "origins" Signature.toJson f.origins
    ++ setField "user_features" Name.toJson f.userFeatures
    ++ setField "via_type_of" Root.toJson f.viaTypePorts
    ++ setField "via_value_of" Root.toJson f.viaValuePorts

def toJson (f : Frame) : Json := .object f.jsonFields

/-- The array of some frames, in the order of their texts. -/
def listToJson (fs : List Frame) : Json := .array (Json.sortByText (fs.map toJson))

end Frame

def FrameKey.toJson (k : FrameKey) : Json :=
  .object [
    ("call_position", .nullable Position.toJson k.callPosition),
    ("callee", .nullable Signature.toJson k.callee),
    ("callee_port", k.port.toJson),
    ("field_callee", .nullable Name.toJson k.fieldCallee),
    ("is_crtex", .bool k.isCrtex)]

def Taint.toJson (t : Taint) : Json := Frame.listToJson t.frames

def Diagnostic.toJson : Diagnostic → Json
  | invalidViaTypePort port callee registerCount =>
    .object [("callee", callee.toJson), ("port", port.toJson),
      ("register_count", .ofNat registerCount), ("type", .string "invalid_via_type_of_port")]
  | invalidViaValuePort port callee argumentCount =>
    .object [("argument_count", .ofNat argumentCount), ("callee", callee.toJson),
      ("port", port.toJson), ("type", .string "invalid_via_value_of_port")]
  | producerWithoutNames kind frameText =>
    .object [("frame", .string frameText), ("kind", kind.toJson),
      ("type", .string "crtex_frame_without_canonical_names")]

end TaintFlow
