import TaintFlow.Proofs.Json.RoundTrip
import TaintFlow.Proofs.Summary.Outcome

/-!
# Features as they are written

Loading a frame takes its features from the document as they stand there: the may-features are what
is listed as such, and the always-features are what is listed as such. Nothing ties the two lists
together.
-/
namespace TaintFlow

namespace Json

/-- The features that an array names. -/
def listed : Json → FeatureSet
  | array items => .ofList (items.filterMap fun
    | string s => some ⟨s⟩
    | _ => none)
  | _ => ∅

/-- A part of a record, which stands under a key of an object or at a place of an array. -/
def part (key : String) (place : Nat) : Json → Json
  | array items => items.getD place null
  | j => j.field key

/-- May and always features as they are written. -/
def features : Json → MayAlways
  | null => .bottom
  | j => .sets (j.part "may" 0).listed (j.part "always" 1).listed

theorem listed_array {items : List Json} {ns : List Feature}
    (h : List.Forall₂ (fun item n => item = string n.text) items ns) :
    listed (array items) = SortedSet.ofList ns := by
  refine congrArg SortedSet.ofList ?_
  induction h with
  | nil => rfl
  | cons hitem _ ih =>
    subst hitem
    rw [List.filterMap_cons, ih]

end Json

namespace Reading

variable {α : Type}

theorem Succeeds.of_string {j : Json} {s : String} (h : Succeeds (string j) s) : j = .string s := by
  cases j with
  | string s' => exact congrArg Json.string h.of_pure
  | _ => exact absurd h not_succeeds_throw

theorem Succeeds.of_name {v : Vocabulary} {j : Json} {n : Name v} (h : Succeeds (name v j) n) :
    j = .string n.text := by
  obtain ⟨s, hs, h⟩ := h.of_bind
  obtain ⟨_, -, h⟩ := h.of_bind
  rw [hs.of_string, ← h.of_pure]

theorem Succeeds.of_featureSet {j : Json} {s : FeatureSet} (h : Succeeds (featureSet j) s) :
    s = j.listed := by
  obtain ⟨ns, hns, hset⟩ := h.of_bind
  cases j with
  | array items =>
    have hitems := Succeeds.of_mapM hns
    rw [Json.listed_array (hitems.imp fun _ _ hitem => hitem.of_name)]
    exact hset.of_pure.symm
  | _ => exact absurd hns not_succeeds_throw

/-- A field that was found is the field of the object. -/
theorem Succeeds.of_field? {read : Json → Reading α} {fields : List (String × Json)} {key : String}
    {a : α} (h : Succeeds (field? fields key read) (some a)) :
    Succeeds (read ((Json.object fields).field key)) a := by
  unfold field? at h
  simp only [Json.field]
  cases hfind : fields.find? fun f => f.1 = key with
  | none =>
    rw [hfind] at h
    cases h.of_pure
  | some f =>
    rw [hfind] at h
    obtain ⟨a', ha', heq⟩ := Succeeds.of_map h
    cases heq
    exact ha'

theorem Succeeds.of_required {key : String} {found : Option α} {a : α}
    (h : Succeeds (required key found) a) : found = some a := by
  cases found with
  | none => exact absurd h not_succeeds_throw
  | some b => exact congrArg some h.of_pure

theorem Succeeds.of_mayAlwaysSets {j : Json} {m : MayAlways} (h : Succeeds (mayAlwaysSets j) m) :
    m = .sets (j.part "may" 0).listed (j.part "always" 1).listed := by
  unfold mayAlwaysSets at h
  split at h
  · obtain ⟨always?, halways, h⟩ := h.of_bind
    obtain ⟨may?, hmay, h⟩ := h.of_bind
    obtain ⟨may, hmay?, h⟩ := h.of_bind
    obtain ⟨always, halways?, h⟩ := h.of_bind
    rw [hmay?.of_required] at hmay
    rw [halways?.of_required] at halways
    rw [← h.of_pure, hmay.of_field?.of_featureSet, halways.of_field?.of_featureSet]
    rfl
  · exact absurd h not_succeeds_throw
  · obtain ⟨may, hmay, h⟩ := h.of_bind
    split at h
    · exact absurd h not_succeeds_throw
    · obtain ⟨always, halways, h⟩ := h.of_bind
      split at h
      · rw [← h.of_pure, hmay.of_featureSet, halways.of_featureSet]
        rfl
      · exact absurd h not_succeeds_throw
  · exact absurd h not_succeeds_throw

theorem Succeeds.of_mayAlways {j : Json} {m : MayAlways} (h : Succeeds (mayAlways j) m) :
    m = j.features := by
  obtain ⟨sets?, hsets, hm⟩ := h.of_bind
  rw [← hm.of_pure]
  cases j with
  | null =>
    rw [← hsets.of_pure]
    rfl
  | _ =>
    obtain ⟨m', hm', heq⟩ := Succeeds.of_map hsets
    rw [← heq]
    exact hm'.of_mayAlwaysSets

theorem Succeeds.of_inFrame {read : Reading α} {put : α → Frame} {d d' : FrameDraft}
    (h : Succeeds ((do pure (put (← read)) : Reading Frame) >>= fun frame => pure { d with frame })
      d') : ∃ a, Succeeds read a ∧ d'.frame = put a := by
  obtain ⟨frame, hframe, h⟩ := h.of_bind
  obtain ⟨a, ha, hput⟩ := hframe.of_bind
  exact ⟨a, ha, by rw [← h.of_pure, ← hput.of_pure]⟩

/-- Only the two fields for features change the features of a frame. -/
theorem Succeeds.of_frameField {d d' : FrameDraft} {key : String} {j : Json}
    (h : Succeeds (frameField d key j) d') :
    d'.frame.inferred = (if key = "inferred_features" then j.features else d.frame.inferred) ∧
      d'.frame.locallyInferred =
        if key = "locally_inferred_features" then j.features else d.frame.locallyInferred := by
  unfold frameField at h
  dsimp only at h
  split at h
  case h_1 | h_2 =>
    obtain ⟨_, -, h⟩ := h.of_bind
    rw [← h.of_pure]
    exact ⟨rfl, rfl⟩
  case h_9 | h_10 =>
    obtain ⟨m, hm, hframe⟩ := h.of_inFrame
    rw [hframe, hm.of_mayAlways]
    exact ⟨rfl, rfl⟩
  case h_16 => exact absurd h not_succeeds_throw
  all_goals
    obtain ⟨_, -, hframe⟩ := h.of_inFrame
    rw [hframe]
    exact ⟨rfl, rfl⟩

/-- Of keys that ascend each one occurs once, and what was read under it stays. -/
theorem Succeeds.of_readFields (held : Frame → MayAlways) {key : String}
    (hheld : ∀ {d d' : FrameDraft} {k : String} {j : Json}, Succeeds (frameField d k j) d' →
      held d'.frame = if k = key then j.features else held d.frame)
    {fields : List (String × Json)} (hkeys : Ascending compareKeys fields) {d d' : FrameDraft}
    (h : Succeeds (readFields d fields) d') :
    held d'.frame =
      ((fields.find? fun f => f.1 = key).map fun f => f.2.features).getD (held d.frame) := by
  induction fields generalizing d with
  | nil =>
    rw [← h.of_pure]
    rfl
  | cons f fields ih =>
    obtain ⟨habove, hkeys⟩ := List.pairwise_cons.1 hkeys
    obtain ⟨first, hfirst, hrest⟩ := Succeeds.of_bind h
    rw [ih hkeys hrest, hheld hfirst, List.find?_cons]
    by_cases hkey : f.1 = key
    · have hnone : fields.find? (fun g => g.1 = key) = none := by
        refine List.find?_eq_none.2 fun g hg hsame => ?_
        have hlt : compare f.1 g.1 = .lt := habove g hg
        rw [hkey, of_decide_eq_true hsame] at hlt
        simp [Std.ReflCmp.compare_self] at hlt
      simp [hkey, hnone]
    · simp [hkey]

/-- A frame that was read has the features that are written. -/
theorem Succeeds.of_frameObject {fields : List (String × Json)}
    (hkeys : Ascending compareKeys fields) {f : Frame} (h : Succeeds (frameObject fields) f) :
    f.inferred = ((Json.object fields).field "inferred_features").features ∧
      f.locallyInferred =
        ((Json.object fields).field "locally_inferred_features").features := by
  obtain ⟨d, hd, h⟩ := h.of_bind
  obtain ⟨kind, -, h⟩ := h.of_bind
  obtain ⟨port, -, h⟩ := h.of_bind
  have hinferred := Succeeds.of_readFields Frame.inferred (fun h => h.of_frameField.1) hkeys hd
  have hlocally :=
    Succeeds.of_readFields Frame.locallyInferred (fun h => h.of_frameField.2) hkeys hd
  have hfield (key : String) : ((fields.find? fun f => f.1 = key).map fun f =>
      f.2.features).getD .bottom = ((Json.object fields).field key).features := by
    simp only [Json.field]
    cases fields.find? fun f => f.1 = key <;> rfl
  rw [← h.of_pure]
  exact ⟨hinferred.trans (hfield _), hlocally.trans (hfield _)⟩

theorem Succeeds.of_ofReading {x : Reading α} {a : α} (h : Succeeds (Loading.ofReading x) a) :
    Succeeds x a := by
  obtain ⟨registry, h⟩ := h
  refine ⟨registry, ?_⟩
  change ((x.run registry).1).mapError InputError.malformed = .ok a at h
  cases hx : (x.run registry).1 with
  | error e =>
    rw [hx] at h
    cases h
  | ok b =>
    rw [hx] at h
    cases h
    rfl

end Reading

/-- The keys of an object ascend. -/
def Json.KeysAscend : Json → Prop
  | object fields => Ascending compareKeys fields
  | _ => True

/-- Whatever the document says of them, the features of a loaded frame are those that it lists. -/
theorem Frame.features_of_ofJson {j : Json} (hkeys : j.KeysAscend) {f : Frame}
    (h : Reading.Succeeds (Frame.ofJson j) f) :
    f.inferred = (j.field "inferred_features").features ∧
      f.locallyInferred = (j.field "locally_inferred_features").features := by
  cases j with
  | object fields => exact (Reading.Succeeds.of_ofReading h).of_frameObject hkeys
  | _ => exact absurd h Reading.not_succeeds_throw

end TaintFlow
