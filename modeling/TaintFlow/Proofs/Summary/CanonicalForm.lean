import Mathlib.Data.List.Perm.Basic
import TaintFlow.Proofs.Identity.Readings
import TaintFlow.Proofs.Json.RoundTrip
import TaintFlow.Proofs.Order.Collected
import TaintFlow.Proofs.Summary.RoundTrip

/-!
# Summaries as a canonical form

Taint is written as the array of its frames in the order of their texts. Frames are told apart by
what is written of them, so the array names the frames of the taint and nothing else: equal taint is
written alike, however it came about, and what is written alike is equal. Reading merges frames by
kind and key, which undoes the writing, and reading one array behind another one joins the two.
-/
namespace TaintFlow

namespace Json

/-- Fields with readable values, whose keys are among `keys` in the same order. -/
def ReadableFields (keys : List String) (fields : List (String × Json)) : Prop :=
  (fields.map Prod.fst).Sublist keys ∧ ∀ field ∈ fields, Readable field.2

theorem ReadableFields.append {keys keys' : List String} {fields fields' : List (String × Json)}
    (h : ReadableFields keys fields) (h' : ReadableFields keys' fields') :
    ReadableFields (keys ++ keys') (fields ++ fields') := by
  refine ⟨?_, List.forall_mem_append.2 ⟨h.2, h'.2⟩⟩
  rw [List.map_append]
  exact h.1.append h'.1

theorem readableFields_nil (key : String) : ReadableFields [key] [] :=
  ⟨List.nil_sublist _, fun _ h => absurd h List.not_mem_nil⟩

theorem readableFields_singleton (key : String) {v : Json} (hv : Readable v) :
    ReadableFields [key] [(key, v)] :=
  ⟨List.Sublist.refl _, fun _ h => List.mem_singleton.1 h ▸ hv⟩

theorem ReadableFields.readable {keys : List String} {fields : List (String × Json)}
    (h : ReadableFields keys fields) (hkeys : keys.Pairwise fun k l => compare k l = .lt) :
    Readable (object fields) :=
  .object (List.pairwise_map.1 (hkeys.sublist h.1)) h.2

theorem readable_ofNat {n : Nat} (h : n < UInt64.size) : Readable (.ofNat n) := by
  have hlow : Int64.minValue.toInt ≤ 0 := by decide
  exact .integer (by omega) (by omega)

end Json

open Json (Readable ReadableFields readableFields_nil readableFields_singleton)

theorem Position.readable_toJson (p : Position) : Readable p.toJson := by
  have hline : Readable (.integer p.line.toInt) := by
    have hlow := p.line.minValue_le_toInt
    have hhigh := p.line.toInt_le
    refine .integer ?_ ?_
    · exact Int.le_trans (by decide) hlow
    · exact Int.lt_of_le_of_lt hhigh (by decide)
  have hpath : ReadableFields ["path"]
      (p.path.map fun path => ("path", Json.string path)).toList := by
    cases p.path with
    | none => exact readableFields_nil _
    | some path => exact readableFields_singleton _ (.string path)
  exact ((readableFields_singleton "line" hline).append hpath).readable (by decide)

theorem SortedSet.readable_toJson {α : Type} [Ord α] {write : α → Json}
    (h : ∀ a, Readable (write a)) (s : SortedSet α) : Readable (s.toJson write) := by
  refine .array fun v hv => ?_
  obtain ⟨a, -, rfl⟩ := List.mem_map.1 hv
  exact h a

theorem CanonicalName.readable_toJson (c : CanonicalName) : Readable c.toJson := by
  cases c with
  | template s => exact (readableFields_singleton _ (.string s)).readable (by decide)
  | instantiated s => exact (readableFields_singleton _ (.string s)).readable (by decide)

theorem MayAlways.readable_toJson (m : MayAlways) : Readable m.toJson := by
  cases m with
  | bottom => exact .null
  | sets may always =>
    have hset : ∀ s : FeatureSet, Readable (s.toJson Name.toJson) :=
      SortedSet.readable_toJson fun n => .string n.text
    exact ((readableFields_singleton _ (hset always)).append
      (readableFields_singleton _ (hset may))).readable (by decide)

namespace Frame

theorem readableFields_optionalField {α : Type} {write : α → Json} (h : ∀ a, Readable (write a))
    (key : String) (value : Option α) : ReadableFields [key] (optionalField key write value) := by
  cases value with
  | none => exact readableFields_nil key
  | some a => exact readableFields_singleton key (h a)

theorem readableFields_setField {α : Type} [Ord α] {write : α → Json}
    (h : ∀ a, Readable (write a)) (key : String) (s : SortedSet α) :
    ReadableFields [key] (setField key write s) := by
  unfold setField
  split
  · exact readableFields_nil key
  · exact readableFields_singleton key (s.readable_toJson h)

theorem readableFields_featuresField (key : String) (m : MayAlways) :
    ReadableFields [key] (featuresField key m) := by
  unfold featuresField
  split
  · exact readableFields_nil key
  · exact readableFields_singleton key m.readable_toJson

/-- What is written of a frame can be read back from its text. -/
theorem readable_toJson (f : Frame) : Readable f.toJson := by
  have hname : ∀ {v : Vocabulary} (n : Name v), Readable n.toJson := fun n => .string n.text
  have hsignature : ∀ s : Signature, Readable s.toJson := fun s => .string s.text
  have hroot : ∀ r : Root, Readable r.toJson := fun r => .string r.text
  have hdistance : Readable (.ofNat f.distance.toNat) :=
    Json.readable_ofNat (Nat.lt_trans f.distance.toNat_lt (by decide))
  have hfields := (readableFields_optionalField Position.readable_toJson "call_position"
        f.callPosition)
    |>.append (readableFields_optionalField hsignature "callee" f.callee)
    |>.append (readableFields_singleton "callee_port" (Readable.string f.port.text))
    |>.append (readableFields_setField CanonicalName.readable_toJson "canonical_names"
        f.canonicalNames)
    |>.append (readableFields_singleton "distance" hdistance)
    |>.append (readableFields_optionalField hname "field_callee" f.fieldCallee)
    |>.append (readableFields_setField hname "field_origins" f.fieldOrigins)
    |>.append (readableFields_featuresField "inferred_features" f.inferred)
    |>.append (readableFields_singleton "kind" (hname f.kind))
    |>.append (readableFields_setField Position.readable_toJson "local_positions" f.localPositions)
    |>.append (readableFields_featuresField "locally_inferred_features" f.locallyInferred)
    |>.append (readableFields_setField hsignature "origins" f.origins)
    |>.append (readableFields_setField hname "user_features" f.userFeatures)
    |>.append (readableFields_setField hroot "via_type_of" f.viaTypePorts)
    |>.append (readableFields_setField hroot "via_value_of" f.viaValuePorts)
  exact hfields.readable (by decide)

theorem toJson_injective : Function.Injective toJson := by
  intro f g h
  have hread := f.answers_ofJson_toJson Registry.empty
  rw [h, g.answers_ofJson_toJson Registry.empty] at hread
  exact (Except.ok.inj hread).symm

/-- The written frames are those of a rearrangement of the list. -/
theorem exists_perm_sortByText (fs : List Frame) :
    ∃ gs : List Frame, gs.Perm fs ∧ Json.sortByText (fs.map toJson) = gs.map toJson := by
  have hcomp := congrFun (congrFun (List.eq_map_comp_perm toJson)
    (Json.sortByText (fs.map toJson))) fs
  obtain ⟨gs, hsorted, hgs⟩ := hcomp.mpr (Json.sortByText_perm (fs.map toJson))
  exact ⟨gs, hgs, hsorted⟩

theorem listToJson_eq_iff {fs gs : List Frame} : listToJson fs = listToJson gs ↔ fs.Perm gs := by
  constructor
  · intro h
    have hsorted : Json.sortByText (fs.map toJson) = Json.sortByText (gs.map toJson) :=
      Json.array.inj h
    have hmap : (fs.map toJson).Perm (gs.map toJson) := by
      refine (Json.sortByText_perm _).symm.trans ?_
      rw [hsorted]
      exact Json.sortByText_perm _
    exact (List.map_perm_map_iff toJson_injective).1 hmap
  · intro h
    refine congrArg Json.array (Json.sortByText_eq_of_perm (h.map toJson) fun v hv => ?_)
    obtain ⟨f, -, rfl⟩ := List.mem_map.1 hv
    exact f.readable_toJson

end Frame

namespace Taint

variable {t u : Taint}

/-- Frames in any order are read back as the taint that collects them. -/
theorem answers_ofJson_listToJson (fs : List Frame) :
    Reading.Answers (ofJson (Frame.listToJson fs)) (.ok (ofList fs)) := by
  obtain ⟨gs, hperm, hsorted⟩ := Frame.exists_perm_sortByText fs
  have hframes : Reading.Answers ((gs.map Frame.toJson).mapM Frame.ofJson) (.ok gs) :=
    Reading.answers_mapM_map fun g _ => g.answers_ofJson_toJson
  rw [Frame.listToJson, hsorted, ← ofList_eq_of_perm hperm]
  exact hframes.map ofList

theorem answers_ofJson_toJson (ht : t.Valid) : Reading.Answers (ofJson t.toJson) (.ok t) := by
  have h := answers_ofJson_listToJson t.frames
  rwa [ofList_frames ht] at h

theorem toJson_eq_iff (ht : t.Valid) (hu : u.Valid) : t.toJson = u.toJson ↔ t = u := by
  refine ⟨fun h => ?_, congrArg toJson⟩
  have hread := answers_ofJson_toJson ht Registry.empty
  rw [h, answers_ofJson_toJson hu Registry.empty] at hread
  exact (Except.ok.inj hread).symm

theorem answers_ofJson_array {items : List Json} {fs : List Frame}
    (h : Reading.Answers (items.mapM Frame.ofJson) (.ok fs)) :
    Reading.Answers (ofJson (.array items)) (.ok (ofList fs)) := h.map ofList

/-- An accepted array is accepted in every registry, as the frames that it holds. -/
theorem exists_frames_of_ofJson {items : List Json} {registry : Registry}
    (h : ((ofJson (.array items)).run registry).1 = .ok t) :
    ∃ fs, Reading.Answers (items.mapM Frame.ofJson) (.ok fs) ∧ ofList fs = t := by
  have hsucceeds : Reading.Succeeds (ofList <$> items.mapM Frame.ofJson) t := ⟨registry, h⟩
  obtain ⟨fs, hfs, heq⟩ := hsucceeds.of_map
  exact ⟨fs, (Reading.notes_mapM Reading.notes_frame items).answers hfs, heq⟩

/-- Frames and taint are read back from what is written of them, equal taint is written alike in
whatever order its frames come, and reading two arrays as one joins them. -/
theorem toJson_canonicalForm :
    (∀ (f : Frame) (registry : Registry), ((Frame.ofJson f.toJson).run registry).1 = .ok f) ∧
      (∀ t : Taint, t.Valid → ∀ registry : Registry,
        ∃ u, ((ofJson t.toJson).run registry).1 = .ok u ∧ u.equals t) ∧
      (∀ t u : Taint, t.Valid → u.Valid → (t.equals u ↔ t.toJson = u.toJson)) ∧
      (∀ (t : Taint) (fs : List Frame), fs.Perm t.frames → Frame.listToJson fs = t.toJson) ∧
      ∀ (items items' : List Json) (before before' : Registry) (t u : Taint),
        ((ofJson (.array items)).run before).1 = .ok t →
        ((ofJson (.array items')).run before').1 = .ok u → ∀ registry : Registry,
        ∃ v, ((ofJson (.array (items ++ items'))).run registry).1 = .ok v ∧
          v.equals (t.join u) := by
  refine ⟨fun f => f.answers_ofJson_toJson, ?_, ?_, fun t fs => Frame.listToJson_eq_iff.2, ?_⟩
  · intro t ht registry
    exact ⟨t, answers_ofJson_toJson ht registry, (joinLaws.equals_iff ht ht).2 rfl⟩
  · intro t u ht hu
    refine (joinLaws.equals_iff ht hu).trans ⟨congrArg toJson, fun h => ?_⟩
    rw [← ofList_frames ht, ← ofList_frames hu]
    exact ofList_eq_of_perm (Frame.listToJson_eq_iff.1 h)
  · intro items items' before before' t u ht hu registry
    obtain ⟨fs, hfs, rfl⟩ := exists_frames_of_ofJson ht
    obtain ⟨gs, hgs, rfl⟩ := exists_frames_of_ofJson hu
    have hboth := answers_ofJson_array (Reading.answers_mapM_append hfs hgs)
    have hvalid := joinLaws.join_mem (valid_ofList fs) (valid_ofList gs)
    refine ⟨_, hboth registry, ?_⟩
    rw [ofList_append]
    exact (joinLaws.equals_iff hvalid hvalid).2 rfl

/-- Quoted names, features that always hold and may not, and sets without features are kept; the
order in which two frames were added does not show. -/
theorem toJson_canonicalForm_of_two_frames :
    let odd : Frame := { Frame.declared ⟨"\"Source\""⟩ ⟨.argument 0, [⟨"a.\"b\\"⟩, ⟨""⟩]⟩ with
      callPosition := some ⟨none, -3⟩
      inferred := .sets ∅ (.ofList [⟨"f"⟩])
      locallyInferred := .empty
      viaTypePorts := .ofList [.anchor, .argument 7] }
    let plain : Frame := .declared ⟨"Source"⟩ (.ofRoot .leaf)
    let t := ofList [odd, plain]
    let u := ofList [plain, odd]
    t.Valid ∧ u.Valid ∧ [plain, odd].Perm t.frames ∧
      ((Frame.ofJson odd.toJson).run .empty).1 = .ok odd ∧
      (∃ v, ((ofJson t.toJson).run .empty).1 = .ok v ∧ v.equals t) ∧
      t.toJson = u.toJson ∧ Frame.listToJson [plain, odd] = t.toJson ∧
      ((ofJson (.array [odd.toJson])).run .empty).1 = .ok (ofList [odd]) ∧
      ((ofJson (.array [plain.toJson])).run .empty).1 = .ok (ofList [plain]) ∧
      ∃ v, ((ofJson (.array ([odd.toJson] ++ [plain.toJson]))).run .empty).1 = .ok v ∧
        v.equals ((ofList [odd]).join (ofList [plain])) := by
  intro odd plain t u
  have ht : t.Valid := valid_ofList _
  have hu : u.Valid := valid_ofList _
  have hperm : [plain, odd].Perm t.frames := by decide
  have hread (f : Frame) : Reading.Answers (ofJson (.array [f.toJson])) (.ok (ofList [f])) := by
    have hframes : Reading.Answers (([f].map Frame.toJson).mapM Frame.ofJson) (.ok [f]) :=
      Reading.answers_mapM_map fun g _ => g.answers_ofJson_toJson
    exact answers_ofJson_array hframes
  have hodd := hread odd .empty
  have hplain := hread plain .empty
  obtain ⟨hframe, hback, hequals, hsorted, hjoined⟩ := toJson_canonicalForm
  exact ⟨ht, hu, hperm, hframe odd .empty, hback t ht .empty, (hequals t u ht hu).1 (by decide),
    hsorted t _ hperm, hodd, hplain, hjoined _ _ _ _ _ _ hodd hplain .empty⟩

end Taint

end TaintFlow
