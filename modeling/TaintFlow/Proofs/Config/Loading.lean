import TaintFlow.Proofs.Config.Document
import TaintFlow.Proofs.Yaml.Words

/-!
# Loading configurations

Whether a document is loaded, and as what, depends on its mapping only, and on that only through
what it says about the four fields. Neither the order of the entries nor the way they are written
shows in the outcome, and a configuration that is loaded is valid.
-/
namespace TaintFlow

namespace PropagationConfig

variable {c : PropagationConfig}

theorem validate_of_ne (h : c.version ≠ 1) :
    c.validate = .error (.unsupportedVersion c.version) :=
  if_pos h

/-- A configuration of the supported version is valid if its distance is in range. -/
theorem validate_of_eq (h : c.version = 1) :
    c.validate = if 1 ≤ c.maxDistance ∧ c.maxDistance ≤ 100 then .ok ()
      else .error (.distanceOutOfRange c.maxDistance) := by
  have hversion : ¬ c.version ≠ supportedVersion := not_not.2 h
  rw [validate, if_neg hversion]
  by_cases hrange : 1 ≤ c.maxDistance ∧ c.maxDistance ≤ 100
  · rw [if_pos hrange, if_neg]
    simpa only [not_or, UInt32.not_lt] using hrange
  · rw [if_neg hrange, if_pos]
    rw [not_and_or] at hrange
    simpa only [UInt32.not_le] using hrange

end PropagationConfig

namespace ConfigDocument

open PropagationConfig (validate_of_ne validate_of_eq)

/-- A mapping of distinct known keys to values of their types or to null. -/
structure IsConfiguration (m : Yaml.Mapping) : Prop where
  distinct : Distinct m
  known : ∀ e ∈ m, e.1.text ∈ fieldNames
  version : Typed m "version" IsNumber
  preset : Typed m "preset" IsPreset
  maxDistance : Typed m "maximum_source_sink_distance" IsNumber
  collectDiagnostics : Typed m "collect_diagnostics" IsFlag

/-- The distance of a mapping: its own, or else that of its preset, or else the default one. -/
inductive DistanceOf (m : Yaml.Mapping) : UInt32 → Prop
  | own {distance : UInt32} : Given m "maximum_source_sink_distance" IsNumber distance →
      DistanceOf m distance
  | preset {p : Preset} : Absent m "maximum_source_sink_distance" →
      Given m "preset" IsPreset p → DistanceOf m p.maxDistance
  | default : Absent m "maximum_source_sink_distance" → Absent m "preset" →
      DistanceOf m Preset.balanced.maxDistance

/-- Whether a mapping has anomalies kept. -/
inductive CollectsOf (m : Yaml.Mapping) : Bool → Prop
  | own {collect : Bool} : Given m "collect_diagnostics" IsFlag collect → CollectsOf m collect
  | default : Absent m "collect_diagnostics" → CollectsOf m true

/-- The outcome of loading a mapping. -/
inductive Outcome (m : Yaml.Mapping) : Except ConfigError PropagationConfig → Prop
  | missingVersion : Absent m "version" → Outcome m (.error .missingVersion)
  | unsupportedVersion {version : UInt32} : Given m "version" IsNumber version → version ≠ 1 →
      Outcome m (.error (.unsupportedVersion version))
  | outOfRange {distance : UInt32} : Given m "version" IsNumber 1 → DistanceOf m distance →
      ¬ (1 ≤ distance ∧ distance ≤ 100) → Outcome m (.error (.distanceOutOfRange distance))
  | loaded {distance : UInt32} {collect : Bool} : Given m "version" IsNumber 1 →
      DistanceOf m distance → CollectsOf m collect → 1 ≤ distance → distance ≤ 100 →
      Outcome m (.ok ⟨1, distance, collect⟩)

section Mapping

variable {m : Yaml.Mapping} {d : ConfigDocument}

theorem isConfiguration_iff : IsConfiguration m ↔ ∃ d, ofMapping? m = some d := by
  constructor
  · intro h
    obtain ⟨version, hversion⟩ := h.distinct.typed_iff.1 h.version
    obtain ⟨preset, hpreset⟩ := h.distinct.typed_iff.1 h.preset
    obtain ⟨maxDistance, hdistance⟩ := h.distinct.typed_iff.1 h.maxDistance
    obtain ⟨collect, hcollect⟩ := h.distinct.typed_iff.1 h.collectDiagnostics
    exact ⟨⟨version, preset, maxDistance, collect⟩, ofMapping?_eq_some_iff.2
      ⟨h.distinct, h.known, hversion, hpreset, hdistance, hcollect⟩⟩
  · rintro ⟨d, hd⟩
    have h := ofMapping?_eq_some_iff.1 hd
    exact ⟨h.distinct, h.known, h.distinct.typed_iff.2 ⟨_, h.version⟩,
      h.distinct.typed_iff.2 ⟨_, h.preset⟩, h.distinct.typed_iff.2 ⟨_, h.maxDistance⟩,
      h.distinct.typed_iff.2 ⟨_, h.collectDiagnostics⟩⟩

/-- The distance in the settings of a document is that of the mapping. -/
theorem Describes.distanceOf_iff (h : Describes m d) (version : UInt32) {distance : UInt32} :
    DistanceOf m distance ↔ (d.settings version).maxDistance = distance := by
  constructor
  · intro hdistance
    cases hdistance with
    | own hown => rw [settings, h.maxDistance_eq (.given hown), Option.getD_some]
    | preset habsent hpreset =>
      rw [settings, h.maxDistance_eq (.absent habsent), h.preset_eq (.given hpreset)]
      rfl
    | default habsent hpreset =>
      rw [settings, h.maxDistance_eq (.absent habsent), h.preset_eq (.absent hpreset)]
      rfl
  · rintro rfl
    obtain ⟨_, preset, maxDistance, _⟩ := d
    have hdistance : Says m "maximum_source_sink_distance" IsNumber maxDistance := h.maxDistance
    have hpreset : Says m "preset" IsPreset preset := h.preset
    cases hdistance with
    | given hown => exact .own hown
    | absent habsent =>
      cases hpreset with
      | given hnamed => exact .preset habsent hnamed
      | absent hnone => exact .default habsent hnone

theorem Describes.collectsOf_iff (h : Describes m d) (version : UInt32) {collect : Bool} :
    CollectsOf m collect ↔ (d.settings version).collectDiagnostics = collect := by
  constructor
  · intro hcollect
    cases hcollect with
    | own hown => rw [settings, h.collectDiagnostics_eq (.given hown), Option.getD_some]
    | default habsent =>
      rw [settings, h.collectDiagnostics_eq (.absent habsent), Option.getD_none]
  · rintro rfl
    obtain ⟨_, _, _, collect⟩ := d
    have hcollect : Says m "collect_diagnostics" IsFlag collect := h.collectDiagnostics
    cases hcollect with
    | given hown => exact .own hown
    | absent habsent => exact .default habsent

/-- Loading has one outcome, that of the document which the mapping describes. -/
theorem Describes.outcome_iff (h : Describes m d) {r : Except ConfigError PropagationConfig} :
    Outcome m r ↔ d.toConfig = r := by
  constructor
  · intro hr
    cases hr with
    | missingVersion habsent => exact toConfig_of_missing (h.version_eq (.absent habsent))
    | unsupportedVersion hgiven hne =>
      rw [toConfig_of_version (h.version_eq (.given hgiven)), validate_of_ne hne]
      rfl
    | outOfRange hgiven hdistance hrange =>
      rw [toConfig_of_version (h.version_eq (.given hgiven)), validate_of_eq rfl,
        (h.distanceOf_iff 1).1 hdistance, if_neg hrange]
      rfl
    | @loaded distance collect hgiven hdistance hcollect hlow hhigh =>
      rw [toConfig_of_version (h.version_eq (.given hgiven)), validate_of_eq rfl,
        (h.distanceOf_iff 1).1 hdistance, if_pos ⟨hlow, hhigh⟩]
      have hsettings : d.settings 1 = ⟨1, distance, collect⟩ := by
        rw [← (h.distanceOf_iff 1).1 hdistance, ← (h.collectsOf_iff 1).1 hcollect]
        rfl
      rw [hsettings]
      rfl
  · rintro rfl
    cases hversion : d.version with
    | none =>
      rw [toConfig_of_missing hversion]
      exact .missingVersion (says_none_iff.1 (hversion ▸ h.version))
    | some version =>
      have hgiven : Given m "version" IsNumber version := says_some_iff.1 (hversion ▸ h.version)
      rw [toConfig_of_version hversion]
      by_cases hone : version = 1
      · subst hone
        rw [validate_of_eq rfl]
        by_cases hrange : 1 ≤ (d.settings 1).maxDistance ∧ (d.settings 1).maxDistance ≤ 100
        · rw [if_pos hrange]
          exact .loaded hgiven ((h.distanceOf_iff 1).2 rfl) ((h.collectsOf_iff 1).2 rfl) hrange.1
            hrange.2
        · rw [if_neg hrange]
          exact .outOfRange hgiven ((h.distanceOf_iff 1).2 rfl) hrange
      · rw [validate_of_ne hone]
        exact .unsupportedVersion hgiven hone

theorem validate_of_toConfig {c : PropagationConfig} (h : d.toConfig = .ok c) :
    c.validate = .ok () := by
  cases hversion : d.version with
  | none =>
    rw [toConfig_of_missing hversion] at h
    cases h
  | some version =>
    rw [toConfig_of_version hversion] at h
    cases hvalid : (d.settings version).validate with
    | error e =>
      rw [hvalid] at h
      cases h
    | ok =>
      rw [hvalid] at h
      cases h
      exact hvalid

end Mapping
end ConfigDocument

namespace PropagationConfig

open ConfigDocument Yaml

/-- Whether a text keeps to the part of YAML that is known here: none of the characters that begin an
anchor, an alias, a tag, a block scalar or a directive occurs in it. -/
def InSubset (s : String) : Prop := ∀ c ∈ s.toList, c ∉ ['&', '*', '!', '|', '>', '%']

instance (s : String) : Decidable (InSubset s) := List.decidableBAll _ s.toList

/-- Only valid configurations are loaded, and the outcome is that of the mapping, however it is
written.

The YAML library is taken to read a mapping of scalars as `Mapping.ofText?` does, and to find no such
mapping in any other text that keeps to the subset. Nothing is said of texts that it reads with the
rest of YAML. -/
theorem ofYaml_dependsOnMapping (s : String) :
    (∀ c, ofYaml s = .ok c → c.validate = .ok ()) ∧
    (InSubset s → Mapping.ofText? s = none → ofYaml s = .error .malformedDocument) ∧
    (∀ m, Written m s → Mapping.ofText? s = some m) ∧
    ∀ m, Mapping.ofText? s = some m →
      (¬ IsConfiguration m → ofYaml s = .error .malformedDocument) ∧
      (IsConfiguration m → ∀ r, ofYaml s = r ↔ Outcome m r) ∧
      ∀ s' m', Mapping.ofText? s' = some m' → m.Perm m' → ofYaml s' = ofYaml s := by
  refine ⟨fun c hc => ?_, fun _ hnone => ?_, fun m hm => hm.ofText?, fun m hm => ⟨?_, ?_, ?_⟩⟩
  · unfold ofYaml at hc
    split at hc
    · cases hc
    · exact validate_of_toConfig hc
  · rw [ofYaml, hnone, Option.bind_none]
  · intro hnot
    have hnone : ofMapping? m = none :=
      Option.eq_none_iff_forall_ne_some.2 fun d hd => hnot (isConfiguration_iff.2 ⟨d, hd⟩)
    rw [ofYaml, hm, Option.bind_some, hnone]
  · intro hconfiguration r
    obtain ⟨d, hd⟩ := isConfiguration_iff.1 hconfiguration
    rw [ofYaml, hm, Option.bind_some, hd]
    exact (ofMapping?_eq_some_iff.1 hd).outcome_iff.symm
  · intro s' m' hm' hperm
    rw [ofYaml, ofYaml, hm, hm', Option.bind_some, Option.bind_some, ofMapping?_eq_of_perm hperm]

/-- A configuration is loaded alike from a block and, its entries in another order and with
comments, from between braces. A key that is not known is reported before the version is. -/
theorem ofYaml_dependsOnMapping_of_two_styles :
    ofYaml "version: 1\npreset: fast\ncollect_diagnostics: false\n" = .ok ⟨1, 3, false⟩ ∧
    ofYaml "# few calls\n\x7bpreset: fast, collect_diagnostics: false,\n  version: 1\x7d # end\n" =
      .ok ⟨1, 3, false⟩ ∧
    (⟨1, 3, false⟩ : PropagationConfig).validate = .ok () ∧
    ofYaml "version: 2\ndepth: 3\n" = .error .malformedDocument ∧
    ofYaml "version: [2]\n" = .error .malformedDocument := by
  have hwritten : Written
      [(.plain "version", .plain "1"), (.plain "preset", .plain "fast"),
        (.plain "collect_diagnostics", .plain "false")]
      "version: 1\npreset: fast\ncollect_diagnostics: false\n" := by
    refine @written_wordLines [("version".toList, "1".toList), ("preset".toList, "fast".toList),
      ("collect_diagnostics".toList, "false".toList)] ?_ ?_
    · decide
    · decide
  have houtcome : Outcome
      [(.plain "version", .plain "1"), (.plain "preset", .plain "fast"),
        (.plain "collect_diagnostics", .plain "false")] (.ok ⟨1, 3, false⟩) := by
    refine .loaded ⟨(.plain "version", .plain "1"), by decide, rfl, rfl, rfl⟩
      (.preset (p := .fast) ?_ ⟨(.plain "preset", .plain "fast"), by decide, rfl, rfl, rfl⟩)
      (.own ⟨(.plain "collect_diagnostics", .plain "false"), by decide, rfl, rfl, rfl⟩)
      (by decide) (by decide)
    unfold Absent
    decide
  obtain ⟨hvalid, -, hread, hmapping⟩ :=
    ofYaml_dependsOnMapping "version: 1\npreset: fast\ncollect_diagnostics: false\n"
  obtain ⟨-, hloads, hstyles⟩ := hmapping _ (hread _ hwritten)
  have hblock := (hloads (isConfiguration_iff.2 ⟨_, rfl⟩) _).2 houtcome
  have hbraces := hstyles
    "# few calls\n\x7bpreset: fast, collect_diagnostics: false,\n  version: 1\x7d # end\n"
    [(.plain "preset", .plain "fast"), (.plain "collect_diagnostics", .plain "false"),
      (.plain "version", .plain "1")] rfl (by decide)
  have hunknown := (ofYaml_dependsOnMapping "version: 2\ndepth: 3\n").2.2.2
    [(.plain "version", .plain "2"), (.plain "depth", .plain "3")] rfl
  refine ⟨hblock, hbraces.trans hblock, hvalid _ hblock, hunknown.1 fun h => ?_,
    (ofYaml_dependsOnMapping "version: [2]\n").2.1 (by decide) rfl⟩
  exact absurd (h.known (.plain "depth", .plain "3") (by decide)) (by decide)

end PropagationConfig
end TaintFlow
