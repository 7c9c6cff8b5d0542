/-!
# Configuration of the propagation

A configuration says how many calls a fact may cross and whether anomalies are kept. Presets pick
the distance; `validate` decides which configurations may be used, and a version that is not
supported is reported before a distance out of range.
-/
namespace TaintFlow

inductive Preset where
  /-- For frequent runs: facts cross at most 3 calls. -/
  | fast
  /-- 7 calls. -/
  | balanced
  /-- For audits: 15 calls. -/
  | thorough
deriving DecidableEq, Repr

inductive ConfigError where
  /-- The distance lies outside `1..=100`. -/
  | distanceOutOfRange (value : UInt32)
  | missingVersion
  | unsupportedVersion (found : UInt32)
  | unknownPreset (text : String)
  /-- The document is not one mapping of known keys to values of their types. -/
  | malformedDocument
  /-- There is no file, or its bytes are no text. -/
  | unreadableFile
deriving DecidableEq, Repr

namespace Preset

instance : Inhabited Preset := ⟨balanced⟩

def all : List Preset := [fast, balanced, thorough]

def text : Preset → String
  | fast => "fast"
  | balanced => "balanced"
  | thorough => "thorough"

def maxDistance : Preset → UInt32
  | fast => 3
  | balanced => 7
  | thorough => 15

def ofText? (s : String) : Option Preset := all.find? (·.text = s)

/-- The preset whose text this is, letter case aside. Only the ASCII letters have cases here: no
other character has the lower-case form of a letter that occurs in a preset. -/
def ofName (s : String) : Except ConfigError Preset :=
  match ofText? (String.ofList (s.toList.map Char.toLower)) with
  | some p => .ok p
  | none => .error (.unknownPreset s)

end Preset

structure PropagationConfig where
  version : UInt32
  /-- Frames at this distance or beyond stop propagating. -/
  maxDistance : UInt32
  collectDiagnostics : Bool
deriving DecidableEq, Repr

namespace PropagationConfig

def supportedVersion : UInt32 := 1

def ofPreset (p : Preset) : PropagationConfig := ⟨supportedVersion, p.maxDistance, true⟩

instance : Inhabited PropagationConfig := ⟨ofPreset .balanced⟩

def validate (c : PropagationConfig) : Except ConfigError Unit :=
  if c.version ≠ supportedVersion then .error (.unsupportedVersion c.version)
  else if c.maxDistance < 1 ∨ 100 < c.maxDistance then .error (.distanceOutOfRange c.maxDistance)
  else .ok ()

end PropagationConfig

namespace ConfigError

/-- The text of an error; what a reader of files or documents has to say is not part of it. -/
def message? : ConfigError → Option String
  | distanceOutOfRange value => some <|
    "Invalid range for field 'maximum_source_sink_distance': " ++ toString value.toNat
      ++ " not in 1..=100. Frames at distance 0 could never propagate; large values rarely find "
      ++ "more flows"
  | missingVersion => some <|
    "Missing 'version' field in configuration file. Add 'version: 1' to the top of your YAML file."
  | unsupportedVersion found => some <|
    "Unsupported configuration version " ++ toString found.toNat ++ ". Supported versions: 1"
  | unknownPreset text => some <|
    "Unknown preset '" ++ text ++ "'. Valid presets: fast, balanced, thorough"
  | malformedDocument => none
  | unreadableFile => none

end ConfigError
end TaintFlow
