import TaintFlow.Config.Basic
import TaintFlow.Json.Reader

/-!
# Configurations as JSON

A preset is its text, or an object whose one field has the text as its key and null as its value. A
configuration is an object of its three fields, or the array of them. Reading does not validate.
-/
namespace TaintFlow

def Preset.toJson (p : Preset) : Json := .string p.text

def PropagationConfig.toJson (c : PropagationConfig) : Json :=
  .object [
    ("collect_diagnostics", .bool c.collectDiagnostics),
    ("maximum_source_sink_distance", .ofNat c.maxDistance.toNat),
    ("version", .ofNat c.version.toNat)]

namespace Reading

def preset (j : Json) : Reading Preset := do
  let (key, content?) ← variant j
  match Preset.ofText? key with
  | none => throw (.unknownVariant key (Preset.all.map Preset.text))
  | some p =>
    match content? with
    | none | some .null => pure p
    | some content => throw (.wrongType content.found .unit)

def config : Json → Reading PropagationConfig
  | .object fields => do
    let collect ← field? fields "collect_diagnostics" boolean
    let distance ← field? fields "maximum_source_sink_distance" natural32
    let version ← field? fields "version" natural32
    pure
      { version := ← required "version" version
        maxDistance := ← required "maximum_source_sink_distance" distance
        collectDiagnostics := ← required "collect_diagnostics" collect }
  | .array [] => throw (.tooShort 0 .config)
  | .array (version :: rest) => do
    let version ← natural32 version
    match rest with
    | [] => throw (.tooShort 1 .config)
    | distance :: rest =>
      let distance ← natural32 distance
      match rest with
      | [] => throw (.tooShort 2 .config)
      | collect :: extra =>
        let collect ← boolean collect
        if extra.isEmpty then pure ⟨version, distance, collect⟩
        else throw (.tooLong (extra.length + 3))
  | j => throw (.wrongType j.found (.record .config))

end Reading
end TaintFlow
