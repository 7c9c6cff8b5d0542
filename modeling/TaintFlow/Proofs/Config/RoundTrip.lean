import TaintFlow.Proofs.Config.Document
import TaintFlow.Proofs.Yaml.Words

/-!
# Configurations written and loaded

The text of a configuration is a mapping of words. Loading it gives what validating the
configuration gives: the configuration itself if it is valid, and else the error that is found
first.
-/
namespace TaintFlow

theorem Yaml.Scalar.isNull_of_natural? {s : Yaml.Scalar} {n : Nat} (h : s.natural? = some n) :
    s.isNull = false := by
  cases s with
  | quoted => cases h
  | plain s =>
    refine decide_eq_false fun hmem => ?_
    have hall : ∀ t ∈ ["", "~", "null", "Null", "NULL"], naturalOf? t.toList = none := by decide
    rw [natural?, hall s hmem] at h
    cases h

namespace PropagationConfig

/-- The keys and values of the three fields. -/
def lines (c : PropagationConfig) : List (List Char × List Char) :=
  [("version".toList, Nat.toDigits 10 c.version.toNat),
    ("maximum_source_sink_distance".toList, Nat.toDigits 10 c.maxDistance.toNat),
    ("collect_diagnostics".toList, if c.collectDiagnostics then "true".toList else "false".toList)]

theorem toYaml_eq (c : PropagationConfig) : c.toYaml = String.ofList (Yaml.wordLines c.lines) := by
  have hnumeral : ∀ n : Nat, (toString n).toList = Nat.toDigits 10 n := fun n => Nat.toList_repr
  refine String.toList_injective ?_
  unfold toYaml lines
  simp only [Yaml.wordLines, String.toList_append, String.toList_ofList, hnumeral,
    List.append_assoc]
  cases c.collectDiagnostics with
  | true => rfl
  | false => rfl

theorem isWord_lines (c : PropagationConfig) :
    ∀ line ∈ c.lines, Yaml.IsWord line.1 ∧ Yaml.IsWord line.2 := by
  have hflag : Yaml.IsWord (if c.collectDiagnostics then "true".toList else "false".toList) := by
    cases c.collectDiagnostics with
    | true => decide
    | false => decide
  simp only [lines, List.forall_mem_cons]
  exact ⟨⟨by decide, Yaml.isWord_toDigits _⟩, ⟨by decide, Yaml.isWord_toDigits _⟩,
    ⟨by decide, hflag⟩, nofun⟩

theorem written_toYaml (c : PropagationConfig) :
    Yaml.Written (Yaml.wordMapping c.lines) c.toYaml := by
  rw [toYaml_eq]
  refine Yaml.written_wordLines c.isWord_lines ?_
  simp only [lines, List.forall_mem_cons]
  exact ⟨by decide, by decide, by decide, nofun⟩

/-- The fields that the text of a configuration gives. -/
def fields (c : PropagationConfig) : ConfigDocument :=
  ⟨some c.version, none, some c.maxDistance, some c.collectDiagnostics⟩

theorem isNumber_toDigits (n : UInt32) :
    ConfigDocument.IsNumber (.plain (String.ofList (Nat.toDigits 10 n.toNat))) n := by
  rw [ConfigDocument.IsNumber, Yaml.Scalar.natural?, String.toList_ofList, Yaml.naturalOf?_toDigits]

theorem isNull_toDigits (n : UInt32) :
    (Yaml.Scalar.plain (String.ofList (Nat.toDigits 10 n.toNat))).isNull = false :=
  Yaml.Scalar.isNull_of_natural? (isNumber_toDigits n)

theorem keys_lines (c : PropagationConfig) : (Yaml.wordMapping c.lines).map (fun e => e.1.text) =
    ["version", "maximum_source_sink_distance", "collect_diagnostics"] :=
  rfl

theorem describes_lines (c : PropagationConfig) :
    ConfigDocument.Describes (Yaml.wordMapping c.lines) c.fields where
  distinct := by
    rw [ConfigDocument.Distinct, keys_lines]
    decide
  known := by
    have hall : ∀ key ∈ ["version", "maximum_source_sink_distance", "collect_diagnostics"],
        key ∈ ConfigDocument.fieldNames := by decide
    exact fun e he => hall _ (c.keys_lines ▸ List.mem_map_of_mem he)
  version := .given ⟨_, .head _, rfl, isNull_toDigits _, isNumber_toDigits _⟩
  preset := by
    have hall : ∀ key ∈ ["version", "maximum_source_sink_distance", "collect_diagnostics"],
        key ≠ "preset" := by decide
    exact .absent fun e he hkey => absurd hkey (hall _ (c.keys_lines ▸ List.mem_map_of_mem he))
  maxDistance := .given ⟨_, .tail _ (.head _), rfl, isNull_toDigits _, isNumber_toDigits _⟩
  collectDiagnostics := by
    refine .given ⟨_, .tail _ (.tail _ (.head _)), rfl, ?_⟩
    cases c.collectDiagnostics with
    | true => exact ⟨rfl, rfl⟩
    | false => exact ⟨rfl, rfl⟩

/-- Loading what was written agrees with validation. -/
theorem ofYaml_toYaml (c : PropagationConfig) : ofYaml c.toYaml = c.validate.map fun _ => c := by
  rw [ofYaml, c.written_toYaml.ofText?, Option.bind_some,
    ConfigDocument.ofMapping?_eq_some_iff.2 c.describes_lines]
  exact ConfigDocument.toConfig_of_version rfl

end PropagationConfig
end TaintFlow
