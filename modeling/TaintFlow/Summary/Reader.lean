import TaintFlow.Json.Reader
import TaintFlow.Taint.Basic

/-!
# Reading summaries

Frames and taint as JSON. A frame is an object with the fields of `frameFields`, of which only the
kind and the port are needed; there are no others. May and always features are taken as they are
written, and need not be well formed. Taint is an array of frames in any order.
-/
namespace TaintFlow

/-- Why a summary or a port cannot be had. -/
inductive InputError where
  | invalidPath (e : InvalidPath)
  | frameNoObject
  | taintNoArray
  | malformed (e : ReadError)
deriving DecidableEq, Repr

def InputError.message : InputError → String
  | invalidPath e => e.message
  | frameNoObject => "Invalid JSON for field 'frame': expected an object"
  | taintNoArray => "Invalid JSON for field 'taint': expected an array of frames"
  | malformed e => "JSON error: " ++ e.message

/-- The fields of a frame, in the order in which they are declared. -/
def frameFields : List String :=
  ["kind", "callee_port", "callee", "field_callee", "call_position", "distance", "origins",
    "field_origins", "inferred_features", "locally_inferred_features", "user_features",
    "via_type_of", "via_value_of", "local_positions", "canonical_names"]

namespace Reading

/-- Path and line of a position, which are not known to belong together before both are read. -/
def pathAndLine : Json → Reading Position
  | .object fields => do
    let line ← field? fields "line" integer32
    let path ← field? fields "path" (optional string)
    pure ⟨path.join, ← required "line" line⟩
  | .array [] => throw (.tooShort 1 .position)
  | .array (path :: rest) => do
    let path ← optional string path
    match rest with
    | [] => throw (.tooShort 1 .position)
    | line :: extra =>
      let line ← integer32 line
      if extra.isEmpty then pure ⟨path, line⟩ else throw (.tooLong (extra.length + 2))
  | j => throw (.wrongType j.found (.record .position))

def position (j : Json) : Reading Position := do
  let p ← pathAndLine j
  mentionPosition p
  pure p

def featureSet (j : Json) : Reading FeatureSet := set (name .feature) j

def mayAlwaysSets : Json → Reading MayAlways
  | .object fields => do
    let always ← field? fields "always" featureSet
    let may ← field? fields "may" featureSet
    pure (.sets (← required "may" may) (← required "always" always))
  | .array [] => throw (.tooShort 0 .mayAlways)
  | .array (may :: rest) => do
    let may ← featureSet may
    match rest with
    | [] => throw (.tooShort 1 .mayAlways)
    | always :: extra =>
      let always ← featureSet always
      if extra.isEmpty then pure (.sets may always) else throw (.tooLong (extra.length + 2))
  | j => throw (.wrongType j.found (.record .mayAlways))

/-- Null stands for bottom. -/
def mayAlways (j : Json) : Reading MayAlways := do
  let sets? ← optional mayAlwaysSets j
  pure (sets?.getD .bottom)

def canonicalName (j : Json) : Reading CanonicalName := do
  let (key, content?) ← variant j
  let content : Reading String :=
    match content? with
    | none => throw .noContent
    | some content => string content
  match key with
  | "template" => .template <$> content
  | "instantiated" => .instantiated <$> content
  | _ => throw (.unknownVariant key ["template", "instantiated"])

/-- The fields of a frame that have been read; `frame` holds all but the kind and the port. -/
structure FrameDraft where
  kind : Option Kind := none
  port : Option AccessPath := none
  frame : Frame := .declared ⟨""⟩ (.ofRoot .leaf)

def frameField (d : FrameDraft) (key : String) (j : Json) : Reading FrameDraft :=
  let inFrame (update : Reading Frame) : Reading FrameDraft := do
    pure { d with frame := ← update }
  let f := d.frame
  match key with
  | "kind" => do pure { d with kind := some (← name .kind j) }
  | "callee_port" => do pure { d with port := some (← accessPath j) }
  | "callee" => inFrame do pure { f with callee := ← optional signature j }
  | "field_callee" => inFrame do pure { f with fieldCallee := ← optional (name .field) j }
  | "call_position" => inFrame do pure { f with callPosition := ← optional position j }
  | "distance" => inFrame do pure { f with distance := ← natural32 j }
  | "origins" => inFrame do pure { f with origins := ← set signature j }
  | "field_origins" => inFrame do pure { f with fieldOrigins := ← set (name .field) j }
  | "inferred_features" => inFrame do pure { f with inferred := ← mayAlways j }
  | "locally_inferred_features" => inFrame do pure { f with locallyInferred := ← mayAlways j }
  | "user_features" => inFrame do pure { f with userFeatures := ← featureSet j }
  | "via_type_of" => inFrame do pure { f with viaTypePorts := ← set root j }
  | "via_value_of" => inFrame do pure { f with viaValuePorts := ← set root j }
  | "local_positions" => inFrame do pure { f with localPositions := ← set position j }
  | "canonical_names" => inFrame do pure { f with canonicalNames := ← set canonicalName j }
  | _ => throw (.unknownField key frameFields)

def frameObject (fields : List (String × Json)) : Reading Frame := do
  let d ← fields.foldlM (fun d (key, j) => frameField d key j) {}
  let kind ← required "kind" d.kind
  let port ← required "callee_port" d.port
  pure { d.frame with kind, port }

end Reading

/-- Loading in a registry, with all errors of input. -/
abbrev Loading (α : Type) := ExceptT InputError (StateM Registry) α

namespace Loading

def ofReading {α : Type} (r : Reading α) : Loading α := ExceptT.adapt .malformed r

end Loading

def Frame.ofJson : Json → Loading Frame
  | .object fields => .ofReading (Reading.frameObject fields)
  | _ => throw .frameNoObject

def Taint.ofJson : Json → Loading Taint
  | .array items => do
    let frames ← items.mapM Frame.ofJson
    pure (.ofList frames)
  | _ => throw .taintNoArray

end TaintFlow
