import TaintFlow.Config.Basic
import TaintFlow.Yaml.Mapping

/-!
# Configuration documents

A configuration is written as a YAML mapping of its three fields. A document that is loaded may also
name a preset, which the fields then override, and may leave out every field but the version; a null
value stands for an absent field. The whole document is read before its version is looked at, and a
configuration that is loaded is valid.
-/
namespace TaintFlow

structure ConfigDocument where
  version : Option UInt32
  preset : Option Preset
  maxDistance : Option UInt32
  collectDiagnostics : Option Bool
deriving DecidableEq, Repr

namespace ConfigDocument

def fieldNames : List String :=
  ["version", "preset", "maximum_source_sink_distance", "collect_diagnostics"]

def natural32? (s : Yaml.Scalar) : Option UInt32 :=
  s.natural?.bind fun n => if n < UInt32.size then some (UInt32.ofNat n) else none

/-- The value of a field that may be absent or null; there is no result for an ill-typed value. -/
def field? {α : Type} (m : Yaml.Mapping) (key : String) (read : Yaml.Scalar → Option α) :
    Option (Option α) :=
  match m.find? fun e => e.1.text = key with
  | none => some none
  | some (_, value) => if value.isNull then some none else (read value).map some

/-- The fields of a mapping whose keys are known and distinct. -/
def ofMapping? (m : Yaml.Mapping) : Option ConfigDocument :=
  let keys := m.map fun e => e.1.text
  if keys.Nodup ∧ keys.all (fieldNames.contains ·) then do
    let version ← field? m "version" natural32?
    let preset ← field? m "preset" fun s => Preset.ofText? s.text
    let maxDistance ← field? m "maximum_source_sink_distance" natural32?
    let collectDiagnostics ← field? m "collect_diagnostics" Yaml.Scalar.bool?
    some { version, preset, maxDistance, collectDiagnostics }
  else none

def toConfig (d : ConfigDocument) : Except ConfigError PropagationConfig :=
  match d.version with
  | none => .error .missingVersion
  | some version =>
    if version ≠ PropagationConfig.supportedVersion then .error (.unsupportedVersion version)
    else
      let base := PropagationConfig.ofPreset (d.preset.getD default)
      let config : PropagationConfig :=
        { version
          maxDistance := d.maxDistance.getD base.maxDistance
          collectDiagnostics := d.collectDiagnostics.getD base.collectDiagnostics }
      match config.validate with
      | .ok () => .ok config
      | .error e => .error e

end ConfigDocument

namespace PropagationConfig

def ofYaml (text : String) : Except ConfigError PropagationConfig :=
  match (Yaml.Mapping.ofText? text).bind ConfigDocument.ofMapping? with
  | none => .error .malformedDocument
  | some d => d.toConfig

/-- Load a configuration from the bytes of a file, if there is one. -/
def ofFile (bytes? : Option ByteArray) : Except ConfigError PropagationConfig :=
  match bytes?.bind String.fromUTF8? with
  | none => .error .unreadableFile
  | some text => ofYaml text

def toYaml (c : PropagationConfig) : String :=
  "version: " ++ toString c.version.toNat ++ "\n"
    ++ "maximum_source_sink_distance: " ++ toString c.maxDistance.toNat ++ "\n"
    ++ "collect_diagnostics: " ++ (if c.collectDiagnostics then "true" else "false") ++ "\n"

end PropagationConfig
end TaintFlow
