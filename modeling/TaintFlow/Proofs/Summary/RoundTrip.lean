import TaintFlow.Proofs.AccessPath.RoundTrip
import TaintFlow.Proofs.Summary.Outcome
import TaintFlow.Summary.Writer

/-!
# Frames read back

What is written of a frame is read back as the frame. A field that was left out stands for what a
frame holds before its fields are read, which is the absent value, the empty set or bottom.
-/
namespace TaintFlow

theorem SortedSet.ofList_toList {α : Type} [Ord α] [Std.TransOrd α] [Std.LawfulEqOrd α]
    (s : SortedSet α) : SortedSet.ofList s.toList = s :=
  SortedSet.ext fun x => by rw [SortedSet.mem_ofList, SortedSet.mem_toList]

namespace Reading

section Parts

variable {α : Type}

theorem answers_name {v : Vocabulary} (n : Name v) : Answers (name v n.toJson) (.ok n) :=
  (answers_pure n.text).bind ((answers_modify _).bind (answers_pure n))

theorem answers_signature (s : Signature) : Answers (signature s.toJson) (.ok s) :=
  (answers_pure s.text).bind ((answers_modify _).bind (answers_pure s))

theorem answers_root (r : Root) : Answers (root r.toJson) (.ok r) := by
  refine (answers_pure r.text).bind ?_
  rw [Root.ofText_text]
  exact answers_pure r

theorem answers_accessPath (p : AccessPath) : Answers (accessPath p.toJson) (.ok p) := by
  refine (answers_pure p.text).bind ((answers_mentions (AccessPath.mentioned p.text)).bind ?_)
  rw [AccessPath.ofText_text]
  exact answers_pure p

theorem answers_bounded {expected : Expected} {low high n : Int} (hlow : low ≤ n)
    (hhigh : n ≤ high) : Answers (bounded expected low high (.integer n)) (.ok n) := by
  unfold bounded
  dsimp only
  rw [if_pos ⟨hlow, hhigh⟩]
  exact answers_pure n

theorem answers_natural32 (n : UInt32) : Answers (natural32 (.ofNat n.toNat)) (.ok n) := by
  have hhigh : (n.toNat : Int) ≤ UInt32.size - 1 := by
    have := n.toNat_lt_size
    omega
  refine (answers_bounded (Int.natCast_nonneg _) hhigh).bind ?_
  rw [Int.toNat_natCast, UInt32.ofNat_toNat]
  exact answers_pure n

theorem answers_integer32 (n : Int32) : Answers (integer32 (.integer n.toInt)) (.ok n) := by
  refine (answers_bounded (Int32.minValue_le_toInt n) (Int32.toInt_le n)).bind ?_
  rw [Int32.ofInt_toInt]
  exact answers_pure n

theorem answers_optional {read : Json → Reading α} {j : Json} {a : α} (hj : j.isNull = false)
    (h : Answers (read j) (.ok a)) : Answers (optional read j) (.ok (some a)) := by
  cases j with
  | null => cases hj
  | _ => exact h.map some

theorem answers_set [Ord α] [Std.TransOrd α] [Std.LawfulEqOrd α] {read : Json → Reading α}
    {write : α → Json} (h : ∀ a, Answers (read (write a)) (.ok a)) (s : SortedSet α) :
    Answers (set read (s.toJson write)) (.ok s) := by
  have hitems : Answers (sequence read (s.toJson write)) (.ok s.toList) :=
    answers_mapM_map fun a _ => h a
  refine hitems.bind ?_
  rw [SortedSet.ofList_toList]
  exact answers_pure s

theorem answers_pathAndLine (p : Position) : Answers (pathAndLine p.toJson) (.ok p) := by
  rcases p with ⟨_ | path, line⟩
  · exact ((answers_integer32 line).map some).bind
      ((answers_pure none).bind ((answers_pure line).bind (answers_pure _)))
  · exact ((answers_integer32 line).map some).bind
      ((((answers_pure path).map some).map some).bind
        ((answers_pure line).bind (answers_pure _)))

theorem answers_position (p : Position) : Answers (position p.toJson) (.ok p) :=
  (answers_pathAndLine p).bind ((answers_modify _).bind (answers_pure p))

theorem answers_featureSet (s : FeatureSet) :
    Answers (featureSet (s.toJson Name.toJson)) (.ok s) := answers_set answers_name s

theorem answers_mayAlways {m : MayAlways} (h : m.isBottom = false) :
    Answers (mayAlways m.toJson) (.ok m) := by
  cases m with
  | bottom => cases h
  | sets may always =>
    have hsets : Answers (mayAlwaysSets (MayAlways.sets may always).toJson)
        (.ok (.sets may always)) :=
      ((answers_featureSet always).map some).bind (((answers_featureSet may).map some).bind
        ((answers_pure may).bind ((answers_pure always).bind (answers_pure _))))
    exact (answers_optional rfl hsets).bind (answers_pure _)

theorem answers_canonicalName (c : CanonicalName) : Answers (canonicalName c.toJson) (.ok c) := by
  cases c with
  | template s => exact (answers_pure _).bind ((answers_pure s).map CanonicalName.template)
  | instantiated s => exact (answers_pure _).bind ((answers_pure s).map CanonicalName.instantiated)

end Parts

section Fields

variable {α : Type} {d : FrameDraft} {key : String}

theorem answers_readFields_append {d' : FrameDraft} {outcome : Except ReadError FrameDraft}
    {xs ys : List (String × Json)} (hxs : Answers (readFields d xs) (.ok d'))
    (hys : Answers (readFields d' ys) outcome) : Answers (readFields d (xs ++ ys)) outcome := by
  rw [readFields, List.foldlM_append]
  exact hxs.bind hys

theorem answers_readFields_singleton {d' : FrameDraft} {j : Json}
    (h : Answers (frameField d key j) (.ok d')) : Answers (readFields d [(key, j)]) (.ok d') :=
  h.bind (answers_pure d')

/-- Field `key` is read as a value and put into the frame. -/
def PutsInto (key : String) (read : Json → Reading α) (put : Frame → α → Frame) : Prop :=
  ∀ (d : FrameDraft) (j : Json), frameField d key j =
    (do pure (put d.frame (← read j)) : Reading Frame) >>= fun frame => pure { d with frame }

variable {read : Json → Reading α}

theorem PutsInto.answers {put : Frame → α → Frame} (hfield : PutsInto key read put) {j : Json}
    {a : α} (h : Answers (read j) (.ok a)) (d : FrameDraft) :
    Answers (readFields d [(key, j)]) (.ok { d with frame := put d.frame a }) := by
  have hone : Answers (frameField d key j) (.ok { d with frame := put d.frame a }) := by
    rw [hfield]
    exact Answers.bind (Answers.bind h (answers_pure (put d.frame a))) (answers_pure _)
  exact hone.bind (answers_pure _)

/-- A value that may be absent comes into the draft, where it was absent before. -/
theorem PutsInto.answers_optional {put : Frame → Option α → Frame}
    (hfield : PutsInto key (optional read) put) (habsent : put d.frame none = d.frame)
    {write : α → Json} (hnull : ∀ a, (write a).isNull = false)
    (h : ∀ a, Answers (read (write a)) (.ok a)) (value : Option α) :
    Answers (readFields d (Frame.optionalField key write value))
      (.ok { d with frame := put d.frame value }) := by
  cases value with
  | none =>
    rw [habsent]
    exact answers_pure d
  | some a => exact hfield.answers (Reading.answers_optional (hnull a) (h a)) d

theorem PutsInto.answers_set [Ord α] [Std.TransOrd α] [Std.LawfulEqOrd α]
    {put : Frame → SortedSet α → Frame} (hfield : PutsInto key (set read) put)
    (habsent : put d.frame ∅ = d.frame) {write : α → Json}
    (h : ∀ a, Answers (read (write a)) (.ok a)) (s : SortedSet α) :
    Answers (readFields d (Frame.setField key write s))
      (.ok { d with frame := put d.frame s }) := by
  unfold Frame.setField
  split
  · rename_i hempty
    have hs : s = ∅ := SortedSet.ext fun x =>
      iff_of_false (SortedSet.isEmpty_iff.1 hempty x) (SortedSet.not_mem_empty x)
    rw [hs, habsent]
    exact answers_pure d
  · exact hfield.answers (Reading.answers_set h s) d

theorem PutsInto.answers_features {put : Frame → MayAlways → Frame}
    (hfield : PutsInto key mayAlways put) (habsent : put d.frame .bottom = d.frame)
    (m : MayAlways) :
    Answers (readFields d (Frame.featuresField key m))
      (.ok { d with frame := put d.frame m }) := by
  cases m with
  | bottom =>
    rw [habsent]
    exact answers_pure d
  | sets may always => exact hfield.answers (answers_mayAlways rfl) d

/-- The draft of all fields that are written of a frame. -/
theorem answers_jsonFields (f : Frame) :
    Answers (readFields {} f.jsonFields)
      (.ok ⟨some f.kind, some f.port, { f with kind := ⟨""⟩, port := .ofRoot .leaf }⟩) := by
  have callPosition : PutsInto "call_position" (optional position)
      fun f v => { f with callPosition := v } := fun _ _ => rfl
  have callee : PutsInto "callee" (optional signature)
      fun f v => { f with callee := v } := fun _ _ => rfl
  have canonicalNames : PutsInto "canonical_names" (set canonicalName)
      fun f v => { f with canonicalNames := v } := fun _ _ => rfl
  have distance : PutsInto "distance" natural32
      fun f v => { f with distance := v } := fun _ _ => rfl
  have fieldCallee : PutsInto "field_callee" (optional (name .field))
      fun f v => { f with fieldCallee := v } := fun _ _ => rfl
  have fieldOrigins : PutsInto "field_origins" (set (name .field))
      fun f v => { f with fieldOrigins := v } := fun _ _ => rfl
  have inferred : PutsInto "inferred_features" mayAlways
      fun f v => { f with inferred := v } := fun _ _ => rfl
  have localPositions : PutsInto "local_positions" (set position)
      fun f v => { f with localPositions := v } := fun _ _ => rfl
  have locallyInferred : PutsInto "locally_inferred_features" mayAlways
      fun f v => { f with locallyInferred := v } := fun _ _ => rfl
  have origins : PutsInto "origins" (set signature)
      fun f v => { f with origins := v } := fun _ _ => rfl
  have userFeatures : PutsInto "user_features" (set (name .feature))
      fun f v => { f with userFeatures := v } := fun _ _ => rfl
  have viaTypePorts : PutsInto "via_type_of" (set root)
      fun f v => { f with viaTypePorts := v } := fun _ _ => rfl
  have viaValuePorts : PutsInto "via_value_of" (set root)
      fun f v => { f with viaValuePorts := v } := fun _ _ => rfl
  unfold Frame.jsonFields
  simp only [List.append_assoc]
  refine answers_readFields_append (callPosition.answers_optional rfl (fun _ => rfl)
    answers_position f.callPosition) ?_
  refine answers_readFields_append (callee.answers_optional rfl (fun _ => rfl)
    answers_signature f.callee) ?_
  refine answers_readFields_append (answers_readFields_singleton
    ((answers_accessPath f.port).bind (answers_pure _))) ?_
  refine answers_readFields_append (canonicalNames.answers_set rfl
    answers_canonicalName f.canonicalNames) ?_
  refine answers_readFields_append (distance.answers (answers_natural32 f.distance) _) ?_
  refine answers_readFields_append (fieldCallee.answers_optional rfl (fun _ => rfl)
    answers_name f.fieldCallee) ?_
  refine answers_readFields_append (fieldOrigins.answers_set rfl answers_name f.fieldOrigins) ?_
  refine answers_readFields_append (inferred.answers_features rfl f.inferred) ?_
  refine answers_readFields_append (answers_readFields_singleton
    ((answers_name f.kind).bind (answers_pure _))) ?_
  refine answers_readFields_append (localPositions.answers_set rfl
    answers_position f.localPositions) ?_
  refine answers_readFields_append (locallyInferred.answers_features rfl f.locallyInferred) ?_
  refine answers_readFields_append (origins.answers_set rfl answers_signature f.origins) ?_
  refine answers_readFields_append (userFeatures.answers_set rfl answers_name f.userFeatures) ?_
  refine answers_readFields_append (viaTypePorts.answers_set rfl answers_root f.viaTypePorts) ?_
  exact viaValuePorts.answers_set rfl answers_root f.viaValuePorts

end Fields

end Reading

/-- What is written of a frame is read back as the frame. -/
theorem Frame.answers_ofJson_toJson (f : Frame) :
    Reading.Answers (Frame.ofJson f.toJson) (.ok f) := by
  have hframe : Reading.Answers (Reading.frameObject f.jsonFields) (.ok f) :=
    (Reading.answers_jsonFields f).bind ((Reading.answers_pure f.kind).bind
      ((Reading.answers_pure f.port).bind (Reading.answers_pure f)))
  exact Reading.answers_ofReading hframe

end TaintFlow
