import TaintFlow.CallPositionFrames
import TaintFlow.Proofs.Order.Meet
import TaintFlow.Propagation.Taint
import TaintFlow.Summary.Reader

/-!
# Operations keep values valid

The operations on frame sets, taint and the frames of a call give valid values from valid values.
An operation that changes keys puts the frames back one by one, so nothing is asked of it but that
frames keep their kinds. An operation that leaves frames in place needs joins that do not change a
key, which is a law of the order.
-/
namespace TaintFlow

theorem ok_of_toOption {ε α : Type} {outcome : Except ε α} {a : α}
    (h : outcome.toOption = some a) : outcome = .ok a := by
  cases outcome with
  | error e => cases h
  | ok b => exact congrArg Except.ok (Option.some.inj h)

theorem foldlM_preserves {α β ε : Type} {p : β → Prop} {f : β → α → Except ε β}
    (hstep : ∀ b a b', p b → f b a = .ok b' → p b') {as : List α} {b b' : β} (hb : p b)
    (h : as.foldlM f b = .ok b') : p b' := by
  induction as generalizing b with
  | nil =>
      cases h
      exact hb
  | cons a as ih =>
      rw [List.foldlM_cons] at h
      cases hf : f b a with
      | error e =>
          rw [hf] at h
          cases h
      | ok c =>
          rw [hf] at h
          exact ih (hstep b a c hb hf) h

namespace Frame

theorem kind_of_merge? {kind : Kind} {frames : List Frame} {site : CallSite}
    {constants : List (Option String)} {f : Frame}
    (h : merge? kind frames site constants = some f) : f.kind = kind := by
  rcases Option.map_eq_some_iff.1 h with ⟨nearest, -, rfl⟩
  rfl

theorem kind_of_crossProducer? {f g : Frame} {site : CallSite}
    (h : f.crossProducer? site = some g) : g.kind = f.kind := by
  simp only [crossProducer?] at h
  split at h
  · cases h
  · rcases Option.map_eq_some_iff.1 h with ⟨merged, hmerge, rfl⟩
    have hkind : merged.kind = f.kind := kind_of_merge? hmerge
    exact hkind

end Frame

namespace FrameSet

variable {s t : FrameSet}

theorem valid_empty (kind : Kind) : (empty kind).Valid := valid_iff.2 Grouped.Filed.empty

theorem valid_add (hs : s.Valid) {f : Frame} (h : s.add f = .ok t) : t.Valid := by
  unfold add at h
  split at h
  · rename_i hkind
    cases h
    exact valid_iff.2 ((frameLaws s.kind).filed_add (valid_iff.1 hs) hkind)
  · cases h

theorem valid_ofList {kind : Kind} {fs : List Frame} (h : ofList kind fs = .ok t) : t.Valid :=
  foldlM_preserves (fun _ _ _ hs h => valid_add hs h) (valid_empty kind) h

theorem valid_map (hs : s.Valid) {change : Frame → Frame} (h : ∀ f, (change f).kind = f.kind) :
    (s.map change).Valid := by
  refine valid_iff.2 ((frameLaws s.kind).filed_map fun f hf => ?_)
  exact (h f).trans (hs.2 f hf)

theorem valid_filter (hs : s.Valid) (keep : Frame → Bool) : (s.filter keep).Valid :=
  valid_iff.2 ((valid_iff.1 hs).filter keep)

theorem valid_difference (hs : s.Valid) : (s.difference t).Valid :=
  valid_iff.2 ((frameLaws s.kind).filed_difference (valid_iff.1 hs) fun _ _ hkind => hkind)

theorem valid_meet (hs : s.Valid) (ht : t.Valid) : (s.meet t).Valid := by
  by_cases hsame : s.kind = t.kind
  · exact (meet_mem ⟨hs, rfl⟩ ⟨ht, hsame.symm⟩).1
  · rw [meet, if_neg hsame]
    exact valid_empty s.kind

/-- The frames behind a call, before they are merged, have the kind of the set. -/
theorem kind_of_mem_crossed (hs : s.Valid) {site : CallSite} :
    ∀ g ∈ s.producers.filterMap (·.crossProducer? site) ++
      (Frame.merge? s.kind s.ordinary site site.constants).toList, g.kind = s.kind := by
  intro g hg
  rcases List.mem_append.1 hg with hproducer | hmerged
  · rcases List.mem_filterMap.1 hproducer with ⟨f, hf, hcross⟩
    have hkind := hs.2 f (List.mem_filter.1 hf).1
    exact (Frame.kind_of_crossProducer? hcross).trans hkind
  · exact Frame.kind_of_merge? (Option.mem_toList.1 hmerged)

theorem valid_propagate (hs : s.Valid) (site : CallSite) : (s.propagate site).Valid :=
  valid_iff.2 ((frameLaws s.kind).filed_ofList (kind_of_mem_crossed hs))

theorem valid_propagateWith (hs : s.Valid) (site : CallSite) (extra : MayAlways) :
    (s.propagateWith extra site).Valid := by
  unfold propagateWith
  split
  · exact valid_propagate hs site
  · exact valid_map (valid_propagate hs site) fun _ => rfl

end FrameSet

namespace Taint

variable {t u : Taint}

theorem valid_difference (ht : t.Valid) : (t.difference u).Valid :=
  valid_iff.2 (FrameSet.setLaws.filed_difference (valid_iff.1 ht) fun _ _ hs =>
    FrameSet.valid_difference hs)

theorem valid_widen (ht : t.Valid) (hu : u.Valid) : (t.widen u).Valid := by
  have heq : t.widen u = t.join u := joinLaws.widen_eq ht hu
  rw [heq]
  exact joinLaws.join_mem ht hu

theorem valid_meet (ht : t.Valid) (hu : u.Valid) : (t.meet u).Valid := by
  refine valid_iff.2 (FrameSet.setLaws.filed_combineShared ?_ (valid_iff.1 ht))
  intro kind s s' hs hs'
  exact FrameSet.valid_meet (valid_of_get? ht hs).1 (valid_of_get? hu hs').1

theorem valid_filter (ht : t.Valid) (keep : FrameSet → Bool) : (t.filter keep).Valid :=
  valid_iff.2 ((valid_iff.1 ht).filter keep)

theorem valid_mapSets (ht : t.Valid) {change : FrameSet → FrameSet}
    (h : ∀ s, s.Valid → (change s).Valid) : Valid ⟨t.sets.map change⟩ :=
  valid_iff.2 (FrameSet.setLaws.filed_map fun s hs => h s (ht.2 s hs))

theorem valid_map (ht : t.Valid) {change : Frame → Frame} (h : ∀ f, (change f).kind = f.kind) :
    (t.map change).Valid :=
  valid_mapSets ht fun _ hs => FrameSet.valid_map hs h

theorem kind_annotate (features : MayAlways) (position : Option Position) (f : Frame) :
    (annotate features position f).kind = f.kind := by
  unfold annotate
  split <;> cases position <;> rfl

theorem kind_movePositions (newCall : Signature → AccessPath → Option Position → Position)
    (newLocal : SortedSet Position → SortedSet Position) (f : Frame) :
    (movePositions newCall newLocal f).kind = f.kind := by
  unfold movePositions
  split <;> rfl

theorem valid_appendPort (ht : t.Valid) (element : PathElement) (p : Kind → Bool) :
    (t.appendPort element p).Valid := by
  apply valid_mapSets ht
  intro s hs
  split
  · exact FrameSet.valid_map hs fun _ => rfl
  · exact hs

theorem valid_filterInvalidFrames (ht : t.Valid)
    (valid : Option Signature → AccessPath → Kind → Bool) :
    (t.filterInvalidFrames valid).Valid :=
  valid_mapSets ht fun _ hs => FrameSet.valid_filter hs _

/-- One set is taken up by a replacement of kinds, as it is or frame by frame under other kinds. -/
def takeUp (mapKind : Kind → List Kind) (featuresOf : Kind → MayAlways) (acc : Taint)
    (s : FrameSet) : Taint :=
  if mapKind s.kind = [s.kind] then acc.addFrames s
  else (relabel (featuresOf s.kind) (mapKind s.kind) s).foldl add acc

theorem transformKinds_eq_foldl (mapKind : Kind → List Kind) (featuresOf : Kind → MayAlways) :
    t.transformKinds mapKind featuresOf = t.sets.elements.foldl (takeUp mapKind featuresOf) ∅ := rfl

theorem valid_takeUp (ht : t.Valid) {s : FrameSet} (hs : s.Valid) (mapKind : Kind → List Kind)
    (featuresOf : Kind → MayAlways) : (takeUp mapKind featuresOf t s).Valid := by
  unfold takeUp
  split
  · exact valid_addFrames ht hs
  · exact valid_foldl_add ht _

theorem valid_transformKinds (ht : t.Valid) (mapKind : Kind → List Kind)
    (featuresOf : Kind → MayAlways) : (t.transformKinds mapKind featuresOf).Valid := by
  rw [transformKinds_eq_foldl]
  refine List.foldlRecOn _ _ valid_empty fun acc hacc s hs => ?_
  exact valid_takeUp hacc (ht.2 s hs) mapKind featuresOf

theorem valid_propagated (ht : t.Valid) (site : CallSite) (extra : MayAlways) :
    (t.propagated site extra).Valid := by
  refine valid_iff.2 (FrameSet.setLaws.filed_ofList fun s hs => ?_)
  rcases List.mem_map.1 hs with ⟨s', hs', rfl⟩
  exact FrameSet.valid_propagateWith (ht.2 s' hs') site extra

theorem valid_of_propagate (ht : t.Valid) {site : CallSite} {extra : MayAlways} (context : Context)
    (h : (t.propagate site extra context).1 = .ok u) : u.Valid := by
  rw [propagate_of_valid ht] at h
  cases h
  exact valid_propagated ht site extra

theorem valid_of_mem_partitionByKind (ht : t.Valid) {kind : Kind}
    (h : (kind, u) ∈ t.partitionByKind) : u.Valid := by
  rcases List.mem_map.1 h with ⟨s, hs, hpart⟩
  cases hpart
  exact valid_addFrames valid_empty (ht.2 s hs)

/-- What is read from a document is valid in every registry, however the frames are written. -/
theorem valid_of_ofJson {json : Json} {registry : Registry}
    (h : ((ofJson json).run registry).1 = .ok t) : t.Valid := by
  cases json with
  | array items =>
      have hread : ofJson (.array items) = ofList <$> items.mapM Frame.ofJson := rfl
      rw [hread, ExceptT.run_map] at h
      change Except.map ofList ((items.mapM Frame.ofJson).run registry).1 = .ok t at h
      cases hframes : ((items.mapM Frame.ofJson).run registry).1 with
      | error e =>
          rw [hframes] at h
          cases h
      | ok frames =>
          rw [hframes] at h
          cases h
          exact valid_ofList frames
  | _ => cases h

end Taint

namespace CallPositionFrames

variable {c d : CallPositionFrames}

theorem toTaint_of_add {f : Frame} (h : c.add f = .ok d) : d.toTaint = c.toTaint.add f := by
  simp only [add] at h
  split at h
  · cases h
    rfl
  · split at h
    · cases h
      rfl
    · cases h

/-- Features are added to frames at a call position as they are to taint, and the position stays. -/
theorem addInferredFeatures_eq (features : MayAlways) (c : CallPositionFrames) :
    c.addInferredFeatures features =
      ⟨c.position, (c.toTaint.addInferredFeatures features).sets⟩ := by
  unfold addInferredFeatures Taint.addInferredFeatures
  split
  · rfl
  · rfl

theorem addInferredFeaturesAndLocalPosition_eq (features : MayAlways)
    (position : Option Position) (c : CallPositionFrames) :
    c.addInferredFeaturesAndLocalPosition features position =
      ⟨c.position, (c.toTaint.addInferredFeaturesAndLocalPosition features position).sets⟩ := by
  unfold addInferredFeaturesAndLocalPosition Taint.addInferredFeaturesAndLocalPosition
  split
  · rfl
  · cases position with
    | none => rfl
    | some p => rfl

/-- Frames at a call position propagate like taint at a call instruction without features. -/
theorem toTaint_propagated (c : CallPositionFrames) (site : CallSite) :
    (c.propagated site).toTaint = c.toTaint.propagated site .bottom := rfl

theorem valid_add (hc : c.toTaint.Valid) {f : Frame} (h : c.add f = .ok d) : d.toTaint.Valid := by
  rw [toTaint_of_add h]
  exact Taint.valid_add hc f

theorem valid_ofList {fs : List Frame} (h : ofList fs = .ok d) : d.toTaint.Valid := by
  refine foldlM_preserves (p := fun c => c.toTaint.Valid) (fun _ _ _ hc h => valid_add hc h) ?_ h
  exact Taint.valid_empty

theorem eq_of_combined {α : Type} {result answer : α} (h : combined c d result = .ok answer) :
    answer = result := by
  unfold combined at h
  split at h
  · exact (Except.ok.inj h).symm
  · cases h

theorem valid_propagated (hc : c.toTaint.Valid) (site : CallSite) :
    (c.propagated site).toTaint.Valid := by
  rw [toTaint_propagated]
  exact Taint.valid_propagated hc site .bottom

theorem valid_of_propagate (hc : c.toTaint.Valid) {site : CallSite} (context : Context)
    (h : (c.propagate site context).1 = .ok d) : d.toTaint.Valid := by
  have hcross : c.propagate site context = _ := FrameSet.outcome_of_valid hc.2 site _ context
  rw [hcross] at h
  cases h
  exact valid_propagated hc site

end CallPositionFrames
end TaintFlow
