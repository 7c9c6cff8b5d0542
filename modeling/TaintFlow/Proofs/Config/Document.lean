import Mathlib.Data.List.Nodup
import TaintFlow.Config.Document

/-!
# The fields of a configuration document

What a mapping says about a field does not depend on the order of its entries: the field is given by
an entry that has a value, or it is absent. A document is made of a mapping exactly if the keys are
distinct and known and each given value can be read.
-/
namespace TaintFlow.ConfigDocument

/-- Plain numbers below 2 ^ 32. -/
def IsNumber (s : Yaml.Scalar) (n : UInt32) : Prop := s.natural? = some n.toNat

def IsPreset (s : Yaml.Scalar) (p : Preset) : Prop := s.text = p.text

def IsFlag (s : Yaml.Scalar) (b : Bool) : Prop := s.bool? = some b

section Specification

variable {α : Type} (m : Yaml.Mapping) (key : String) (denotes : Yaml.Scalar → α → Prop)

/-- An entry for the field has a value, which denotes the given one. -/
def Given (a : α) : Prop := ∃ e ∈ m, e.1.text = key ∧ e.2.isNull = false ∧ denotes e.2 a

/-- No entry for the field has a value. -/
def Absent : Prop := ∀ e ∈ m, e.1.text = key → e.2.isNull

/-- Each value for the field denotes something. -/
def Typed : Prop := ∀ e ∈ m, e.1.text = key → e.2.isNull = false → ∃ a, denotes e.2 a

/-- What a mapping says about a field whose values denote something. -/
inductive Says : Option α → Prop
  | absent : Absent m key → Says none
  | given {a : α} : Given m key denotes a → Says (some a)

def Distinct : Prop := (m.map fun e => e.1.text).Nodup

end Specification

/-- A mapping of distinct and known keys that says the fields of the document. -/
structure Describes (m : Yaml.Mapping) (d : ConfigDocument) : Prop where
  distinct : Distinct m
  known : ∀ e ∈ m, e.1.text ∈ fieldNames
  version : Says m "version" IsNumber d.version
  preset : Says m "preset" IsPreset d.preset
  maxDistance : Says m "maximum_source_sink_distance" IsNumber d.maxDistance
  collectDiagnostics : Says m "collect_diagnostics" IsFlag d.collectDiagnostics

section Values

theorem natural32?_eq_some_iff {s : Yaml.Scalar} {n : UInt32} :
    natural32? s = some n ↔ IsNumber s n := by
  rw [natural32?, IsNumber, Option.bind_eq_some_iff]
  constructor
  · rintro ⟨k, hk, hn⟩
    split at hn
    · next hlt =>
      cases hn
      rw [hk, UInt32.toNat_ofNat_of_lt' hlt]
    · cases hn
  · intro hs
    exact ⟨n.toNat, hs, by rw [if_pos n.toNat_lt_size, UInt32.ofNat_toNat]⟩

theorem ofText?_eq_some_iff {s : Yaml.Scalar} {p : Preset} :
    Preset.ofText? s.text = some p ↔ IsPreset s p := by
  rw [Preset.ofText?, IsPreset]
  constructor
  · intro h
    have htext := List.find?_some h
    exact (of_decide_eq_true htext).symm
  · intro h
    rw [h]
    cases p <;> rfl

theorem bool?_eq_some_iff {s : Yaml.Scalar} {b : Bool} : s.bool? = some b ↔ IsFlag s b := Iff.rfl

end Values

section Field

variable {α : Type} {m m' : Yaml.Mapping} {key : String} {read : Yaml.Scalar → Option α}
  {denotes : Yaml.Scalar → α → Prop} {x : Option α} {a : α} {e e' : Yaml.Scalar × Yaml.Scalar}

/-- Entries with one key are one entry. -/
theorem Distinct.eq_of_text_eq (hm : Distinct m) (he : e ∈ m) (he' : e' ∈ m)
    (h : e.1.text = e'.1.text) : e = e' :=
  List.inj_on_of_nodup_map hm he he' h

theorem says_none_iff : Says m key denotes none ↔ Absent m key :=
  ⟨fun h => by cases h; assumption, .absent⟩

theorem says_some_iff : Says m key denotes (some a) ↔ Given m key denotes a :=
  ⟨fun h => by cases h; assumption, .given⟩

theorem absent_or_exists (m : Yaml.Mapping) (key : String) :
    Absent m key ∨ ∃ e ∈ m, e.1.text = key ∧ e.2.isNull = false := by
  by_cases h : ∃ e ∈ m, e.1.text = key ∧ e.2.isNull = false
  · exact .inr h
  · refine .inl fun e he hkey => ?_
    cases hnull : e.2.isNull with
    | true => rfl
    | false => exact absurd ⟨e, he, hkey, hnull⟩ h

theorem Absent.not_given (h : Absent m key) : ¬ Given m key denotes a := by
  rintro ⟨e, he, hkey, hnull, -⟩
  exact Bool.false_ne_true (hnull.symm.trans (h e he hkey))

theorem field?_of_absent (h : Absent m key) : field? m key read = some none := by
  rw [field?]
  cases hfind : m.find? fun e => e.1.text = key with
  | none => rfl
  | some e =>
    have hkey := List.find?_some hfind
    exact if_pos (h e (List.mem_of_find?_eq_some hfind) (of_decide_eq_true hkey))

/-- The entry for a field that has a value is the one that is found. -/
theorem Distinct.field?_of_mem (hm : Distinct m) (he : e ∈ m) (hkey : e.1.text = key)
    (hnull : e.2.isNull = false) : field? m key read = (read e.2).map some := by
  rw [field?]
  cases hfind : m.find? fun e => e.1.text = key with
  | none => exact absurd (decide_eq_true hkey) (List.find?_eq_none.1 hfind e he)
  | some found =>
    have hfound := List.find?_some hfind
    have hsame : found = e := hm.eq_of_text_eq (List.mem_of_find?_eq_some hfind) he
      ((of_decide_eq_true hfound).trans hkey.symm)
    rw [hsame]
    exact if_neg (Bool.eq_false_iff.1 hnull)

theorem Distinct.field?_eq_some_iff (hm : Distinct m)
    (hread : ∀ {s a}, read s = some a ↔ denotes s a) :
    field? m key read = some x ↔ Says m key denotes x := by
  rcases absent_or_exists m key with habsent | ⟨e, he, hkey, hnull⟩
  · rw [field?_of_absent habsent, Option.some_inj]
    cases x with
    | none => exact iff_of_true rfl (.absent habsent)
    | some a => exact iff_of_false nofun fun h => habsent.not_given (says_some_iff.1 h)
  · rw [hm.field?_of_mem he hkey hnull, Option.map_eq_some_iff]
    constructor
    · rintro ⟨a, ha, rfl⟩
      exact .given ⟨e, he, hkey, hnull, hread.1 ha⟩
    · intro h
      cases h with
      | absent habsent => exact absurd (habsent e he hkey) (Bool.eq_false_iff.1 hnull)
      | @given a hgiven =>
        obtain ⟨e', he', hkey', -, ha⟩ := hgiven
        rw [hm.eq_of_text_eq he' he (hkey'.trans hkey.symm)] at ha
        exact ⟨a, hread.2 ha, rfl⟩

/-- A mapping of distinct keys says one thing about a field. -/
theorem Distinct.says_unique (hm : Distinct m) (hread : ∀ {s a}, read s = some a ↔ denotes s a)
    {y : Option α} (hx : Says m key denotes x) (hy : Says m key denotes y) : x = y := by
  rw [← hm.field?_eq_some_iff hread] at hx hy
  exact Option.some.inj (hx.symm.trans hy)

theorem Distinct.typed_iff (hm : Distinct m) :
    Typed m key denotes ↔ ∃ x, Says m key denotes x := by
  rcases absent_or_exists m key with habsent | ⟨e, he, hkey, hnull⟩
  · refine iff_of_true (fun e he hkey hnull => ?_) ⟨none, .absent habsent⟩
    exact absurd (habsent e he hkey) (Bool.eq_false_iff.1 hnull)
  · constructor
    · intro h
      obtain ⟨a, ha⟩ := h e he hkey hnull
      exact ⟨some a, .given ⟨e, he, hkey, hnull, ha⟩⟩
    · rintro ⟨x, habsent | ⟨e', he', hkey', -, ha⟩⟩ e₁ he₁ hkey₁ hnull₁
      · exact absurd (habsent e₁ he₁ hkey₁) (Bool.eq_false_iff.1 hnull₁)
      · rw [hm.eq_of_text_eq he₁ he' (hkey₁.trans hkey'.symm)]
        exact ⟨_, ha⟩

/-- The order of the entries does not matter. -/
theorem Says.of_perm (h : Says m key denotes x) (hm : m.Perm m') : Says m' key denotes x := by
  cases h with
  | absent habsent => exact .absent fun e he => habsent e (hm.mem_iff.2 he)
  | given hgiven =>
    obtain ⟨e, he, hrest⟩ := hgiven
    exact .given ⟨e, hm.mem_iff.1 he, hrest⟩

end Field

section Document

variable {m m' : Yaml.Mapping} {d : ConfigDocument}

/-- A document is made of exactly those mappings that describe it. -/
theorem ofMapping?_eq_some_iff : ofMapping? m = some d ↔ Describes m d := by
  have hknown : (m.map fun e => e.1.text).all (fieldNames.contains ·) ↔
      ∀ e ∈ m, e.1.text ∈ fieldNames := by simp
  rw [ofMapping?]
  simp only [hknown]
  split
  · next h =>
    have hm : Distinct m := h.1
    simp only [Option.bind_eq_bind, Option.bind_eq_some_iff,
      hm.field?_eq_some_iff natural32?_eq_some_iff, hm.field?_eq_some_iff ofText?_eq_some_iff,
      hm.field?_eq_some_iff bool?_eq_some_iff]
    constructor
    · rintro ⟨version, hversion, preset, hpreset, maxDistance, hdistance, collect, hcollect, ⟨⟩⟩
      exact ⟨hm, h.2, hversion, hpreset, hdistance, hcollect⟩
    · intro hd
      exact ⟨_, hd.version, _, hd.preset, _, hd.maxDistance, _, hd.collectDiagnostics, rfl⟩
  · next h => exact iff_of_false nofun fun hd => h ⟨hd.distinct, hd.known⟩

theorem Describes.version_eq {x : Option UInt32} (h : Describes m d)
    (hx : Says m "version" IsNumber x) : d.version = x :=
  h.distinct.says_unique natural32?_eq_some_iff h.version hx

theorem Describes.preset_eq {x : Option Preset} (h : Describes m d)
    (hx : Says m "preset" IsPreset x) : d.preset = x :=
  h.distinct.says_unique ofText?_eq_some_iff h.preset hx

theorem Describes.maxDistance_eq {x : Option UInt32} (h : Describes m d)
    (hx : Says m "maximum_source_sink_distance" IsNumber x) : d.maxDistance = x :=
  h.distinct.says_unique natural32?_eq_some_iff h.maxDistance hx

theorem Describes.collectDiagnostics_eq {x : Option Bool} (h : Describes m d)
    (hx : Says m "collect_diagnostics" IsFlag x) : d.collectDiagnostics = x :=
  h.distinct.says_unique bool?_eq_some_iff h.collectDiagnostics hx

theorem Describes.of_perm (h : Describes m d) (hm : m.Perm m') : Describes m' d where
  distinct := ((hm.map _).nodup_iff).1 h.distinct
  known := fun e he => h.known e (hm.mem_iff.2 he)
  version := h.version.of_perm hm
  preset := h.preset.of_perm hm
  maxDistance := h.maxDistance.of_perm hm
  collectDiagnostics := h.collectDiagnostics.of_perm hm

theorem ofMapping?_eq_of_perm (hm : m.Perm m') : ofMapping? m = ofMapping? m' := by
  refine Option.ext fun d => ?_
  rw [ofMapping?_eq_some_iff, ofMapping?_eq_some_iff]
  exact ⟨fun h => h.of_perm hm, fun h => h.of_perm hm.symm⟩

end Document

section Settings

variable {d : ConfigDocument} {version : UInt32}

/-- The settings of a document: a distance of its own comes before that of its preset. -/
def settings (d : ConfigDocument) (version : UInt32) : PropagationConfig where
  version := version
  maxDistance := d.maxDistance.getD (d.preset.getD default).maxDistance
  collectDiagnostics := d.collectDiagnostics.getD true

theorem toConfig_of_missing (h : d.version = none) : d.toConfig = .error .missingVersion := by
  rw [toConfig, h]

/-- The version is looked at before the settings are validated, with the outcome that validating
them has. -/
theorem toConfig_of_version (h : d.version = some version) :
    d.toConfig = (d.settings version).validate.map fun _ => d.settings version := by
  rw [toConfig, h]
  by_cases hversion : version = PropagationConfig.supportedVersion
  · simp only [hversion, ne_eq, not_true_eq_false, if_false]
    split
    · next hvalid =>
      change (d.settings PropagationConfig.supportedVersion).validate = _ at hvalid
      rw [hvalid]
      rfl
    · next hrefused =>
      change (d.settings PropagationConfig.supportedVersion).validate = _ at hrefused
      rw [hrefused]
      rfl
  · have hrefused : (d.settings version).validate = .error (.unsupportedVersion version) :=
      if_pos hversion
    simp only [hrefused, ne_eq, hversion, not_false_eq_true, if_true]
    rfl

end Settings
end TaintFlow.ConfigDocument
