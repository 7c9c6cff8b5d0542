import TaintFlow.Proofs.Grouped.Elements
import TaintFlow.Proofs.Order.Absorption
import TaintFlow.Proofs.Propagation.Crossing
import TaintFlow.Proofs.Validity.Operations

/-!
# Operations keep features well formed

Well-formed features are well formed after every operation on them, and so are those of all frames
of a value. Joins and meets keep them for different reasons: what is certain of two paths is certain
of each of them, so it may hold on either, while a meet tests its result and gives it up when it
contradicts itself. Nothing is asked of the kinds and keys of frames, and values need not be valid.
-/
namespace TaintFlow

namespace MayAlways

variable {m e : MayAlways} {ms : List MayAlways}

theorem wellFormed_iff : m.WellFormed ↔ ∀ x, x ∈ m.always → x ∈ m.may := by
  cases m with
  | bottom => exact iff_of_true trivial fun x hx => absurd hx (SortedSet.not_mem_emptyCollection x)
  | sets may always => exact Iff.rfl

theorem wellFormed_ofAlways (fs : FeatureSet) : (ofAlways fs).WellFormed := fun _ hx => hx

theorem wellFormed_ofMay (fs : FeatureSet) : (ofMay fs).WellFormed := fun x hx =>
  absurd hx (SortedSet.not_mem_emptyCollection x)

theorem wellFormed_ofSets (may always : FeatureSet) : (ofSets may always).WellFormed := fun _ hx =>
  SortedSet.mem_union.2 (.inr hx)

theorem WellFormed.addMay (hm : m.WellFormed) (f : Feature) : (m.addMay f).WellFormed := fun x hx =>
  SortedSet.mem_insert.2 (.inr (wellFormed_iff.1 hm x hx))

theorem WellFormed.addAllAlways (hm : m.WellFormed) (fs : List Feature) :
    (m.addAllAlways fs).WellFormed := by
  refine wellFormed_iff.2 fun x hx => ?_
  rw [mem_always_addAllAlways] at hx
  exact mem_may_addAllAlways.2 (hx.imp_left (wellFormed_iff.1 hm x))

theorem WellFormed.compose (hm : m.WellFormed) (he : e.WellFormed) : (m.compose e).WellFormed := by
  refine wellFormed_iff.2 fun x hx => ?_
  rw [mem_always_compose] at hx
  exact mem_may_compose.2 (hx.imp (wellFormed_iff.1 hm x) (wellFormed_iff.1 he x))

/-- Every feature that is certain on the paths may hold on one of them. -/
def Consistent (ms : List MayAlways) : Prop := ∀ x, Certain ms x → ∃ m ∈ ms, x ∈ m.may

theorem wellFormed_joinAll_iff : (joinAll ms).WellFormed ↔ Consistent ms := by
  rw [wellFormed_iff]
  simp only [mem_always_joinAll, mem_may_joinAll, Consistent]

theorem wellFormed_joinAll (hms : ∀ m ∈ ms, m.WellFormed) : (joinAll ms).WellFormed := by
  refine wellFormed_joinAll_iff.2 fun x hcertain => ?_
  obtain ⟨⟨m, hm, hknown⟩, hall⟩ := hcertain
  exact ⟨m, hm, wellFormed_iff.1 (hms m hm) x (hall m hm hknown)⟩

theorem WellFormed.join (hm : m.WellFormed) (he : e.WellFormed) : (m.join e).WellFormed := by
  have hpair : joinAll [m, e] = m.join e := by cases m <;> rfl
  rw [← hpair]
  exact wellFormed_joinAll (List.forall_mem_cons.2 ⟨hm, List.forall_mem_singleton.2 he⟩)

theorem wellFormed_meet (m e : MayAlways) : (m.meet e).WellFormed := by
  cases m with
  | bottom => exact trivial
  | sets may always =>
      cases e with
      | bottom => exact trivial
      | sets may' always' =>
          simp only [meet]
          split
          · rename_i hconsistent
            exact SortedSet.isSubset_iff.1 hconsistent
          · exact trivial

end MayAlways

namespace Frame

variable {f g : Frame} {site : CallSite} {constants : List (Option String)}

theorem WellFormed.features (hf : f.WellFormed) : f.features.WellFormed :=
  (hf.1.compose hf.2).addAllAlways _

theorem WellFormed.of_mem_features (hf : f.WellFormed) {m : MayAlways}
    (hm : m ∈ [f.inferred, f.locallyInferred, f.features]) : m.WellFormed := by
  rw [List.mem_cons, List.mem_cons, List.mem_singleton] at hm
  rcases hm with rfl | rfl | rfl
  · exact hf.1
  · exact hf.2
  · exact hf.features

/-- The features of the ports asked for always hold, like those given by the user. -/
theorem WellFormed.contribution (hf : f.WellFormed) : (f.contribution site constants).WellFormed :=
  (hf.features.addAllAlways _).addAllAlways _

theorem WellFormed.addInferredFeatures (hf : f.WellFormed) {features : MayAlways}
    (hfeatures : features.WellFormed) : (f.addInferredFeatures features).WellFormed :=
  ⟨hf.1, hf.2.compose hfeatures⟩

theorem WellFormed.startAt (hf : f.WellFormed) (position : Position) :
    (Taint.startAt position f).WellFormed := ⟨hf.features, trivial⟩

theorem WellFormed.annotate (hf : f.WellFormed) {features : MayAlways}
    (hfeatures : features.WellFormed) (position : Option Position) :
    (Taint.annotate features position f).WellFormed := by
  unfold Taint.annotate
  have hadded : (if features.isEmpty then f else f.addInferredFeatures features).WellFormed := by
    split
    · exact hf
    · exact hf.addInferredFeatures hfeatures
  cases position <;> exact hadded

theorem WellFormed.movePositions (hf : f.WellFormed)
    (newCall : Signature → AccessPath → Option Position → Position)
    (newLocal : SortedSet Position → SortedSet Position) :
    (Taint.movePositions newCall newLocal f).WellFormed := by
  unfold Taint.movePositions
  split <;> exact hf

theorem closed_wellFormed : Grouping.Closed Frame.WellFormed where
  join _ _ hf hg := ⟨hf.1.join hg.1, hf.2.join hg.2⟩
  widen _ _ hf hg := ⟨hf.1.join hg.1, hf.2.join hg.2⟩
  meet _ _ _ _ := ⟨MayAlways.wellFormed_meet _ _, MayAlways.wellFormed_meet _ _⟩
  narrow _ _ _ _ := ⟨MayAlways.wellFormed_meet _ _, MayAlways.wellFormed_meet _ _⟩
  difference _ _ hf _ := hf

/-- The frame that others are merged to joins what they contribute. -/
theorem wellFormed_of_merge? {kind : Kind} {fs : List Frame} (hfs : ∀ f ∈ fs, f.WellFormed)
    (h : merge? kind fs site constants = some g) : g.WellFormed := by
  obtain ⟨-, -, -, rfl⟩ := exists_nearest_of_merge? h
  refine ⟨MayAlways.wellFormed_joinAll fun m hm => ?_, trivial⟩
  obtain ⟨f, hf, rfl⟩ := List.mem_map.1 hm
  exact (hfs f (List.mem_filter.1 hf).1).contribution

theorem WellFormed.of_crossProducer? (hf : f.WellFormed) (h : f.crossProducer? site = some g) :
    g.WellFormed := by
  rw [crossProducer?_eq] at h
  split at h
  · cases h
    exact ⟨hf.contribution, trivial⟩
  · cases h

end Frame

namespace FrameSet

variable {s t r : FrameSet}

/-- The features of all frames are well formed. -/
def WellFormed (s : FrameSet) : Prop := s.frames.All Frame.WellFormed

theorem wellFormed_empty (kind : Kind) : (empty kind).WellFormed := Grouped.all_empty

theorem wellFormed_singleton {f : Frame} (hf : f.WellFormed) : (singleton f).WellFormed :=
  Grouped.all_ofList Frame.closed_wellFormed (List.forall_mem_singleton.2 hf)

theorem WellFormed.of_add (hs : s.WellFormed) {f : Frame} (hf : f.WellFormed)
    (h : s.add f = .ok r) : r.WellFormed := by
  unfold FrameSet.add at h
  split at h
  · cases h
    exact Grouped.All.add Frame.closed_wellFormed hs hf
  · cases h

theorem WellFormed.map (hs : s.WellFormed) {change : Frame → Frame}
    (hchange : ∀ f, f.WellFormed → (change f).WellFormed) : (s.map change).WellFormed :=
  Grouped.all_map Frame.closed_wellFormed fun f hf => hchange f (hs f hf)

theorem WellFormed.filter (hs : s.WellFormed) (keep : Frame → Bool) : (s.filter keep).WellFormed :=
  Grouped.All.filter hs keep

theorem closed_wellFormed : Grouping.Closed FrameSet.WellFormed where
  join s t hs ht := by
    change (s.join t).WellFormed
    unfold join
    split
    · exact hs
    · split
      · exact ht
      · exact hs.join Frame.closed_wellFormed ht
  widen s t hs ht := by
    change (s.widen t).WellFormed
    unfold widen
    split
    · exact ht
    · split
      · exact hs
      · exact Grouped.All.widen Frame.closed_wellFormed hs ht
  meet s t hs ht := by
    change (s.meet t).WellFormed
    unfold meet
    split
    · exact Grouped.All.meet Frame.closed_wellFormed hs ht
    · exact wellFormed_empty s.kind
  narrow s t hs ht := by
    change (s.narrow t).WellFormed
    unfold narrow
    split
    · exact Grouped.All.narrow Frame.closed_wellFormed hs ht
    · exact wellFormed_empty s.kind
  difference _ _ hs ht := Grouped.All.difference Frame.closed_wellFormed hs ht

theorem WellFormed.propagate (hs : s.WellFormed) (site : CallSite) :
    (s.propagate site).WellFormed := by
  refine Grouped.all_ofList Frame.closed_wellFormed fun g hg => ?_
  rcases List.mem_append.1 hg with hproducer | hmerged
  · obtain ⟨f, hf, hcross⟩ := List.mem_filterMap.1 hproducer
    exact (hs f (List.mem_filter.1 hf).1).of_crossProducer? hcross
  · have hordinary : ∀ f ∈ s.ordinary, f.WellFormed := fun f hf => hs f (List.mem_filter.1 hf).1
    exact Frame.wellFormed_of_merge? hordinary (Option.mem_toList.1 hmerged)

theorem WellFormed.propagateWith (hs : s.WellFormed) (site : CallSite) {extra : MayAlways}
    (hextra : extra.WellFormed) : (s.propagateWith extra site).WellFormed := by
  unfold FrameSet.propagateWith
  split
  · exact hs.propagate site
  · exact (hs.propagate site).map fun f hf => ⟨hf.1.compose hextra, hf.2⟩

theorem eq_of_outcome {α : Type} {sets : List FrameSet} {site : CallSite} {result answer : α}
    {c : Context} (h : (outcome sets site result c).1 = .ok answer) : answer = result := by
  simp only [outcome] at h
  cases hfault : (crossing site sets).2 with
  | none =>
      rw [hfault] at h
      exact (Except.ok.inj h).symm
  | some fault =>
      rw [hfault] at h
      cases h

end FrameSet

namespace Taint

variable {t u : Taint}

theorem wellFormed_iff : t.WellFormed ↔ t.sets.All FrameSet.WellFormed := by
  simp only [WellFormed, mem_frames]
  constructor
  · intro ht s hs f hf
    exact ht f ⟨s, hs, hf⟩
  · intro ht f hfound
    obtain ⟨s, hs, hf⟩ := hfound
    exact ht s hs f hf

theorem WellFormed.sets (ht : t.WellFormed) : t.sets.All FrameSet.WellFormed := wellFormed_iff.1 ht

theorem wellFormed_empty : (∅ : Taint).WellFormed := wellFormed_iff.2 Grouped.all_empty

theorem WellFormed.addFrames (ht : t.WellFormed) {s : FrameSet} (hs : s.WellFormed) :
    (t.addFrames s).WellFormed :=
  wellFormed_iff.2 (ht.sets.add FrameSet.closed_wellFormed hs)

theorem WellFormed.add (ht : t.WellFormed) {f : Frame} (hf : f.WellFormed) : (t.add f).WellFormed :=
  ht.addFrames (FrameSet.wellFormed_singleton hf)

theorem WellFormed.addAll (ht : t.WellFormed) {fs : List Frame} (hfs : ∀ f ∈ fs, f.WellFormed) :
    (fs.foldl Taint.add t).WellFormed := by
  induction fs generalizing t with
  | nil => exact ht
  | cons f fs ih =>
      exact ih (ht.add (hfs f List.mem_cons_self)) fun g hg => hfs g (List.mem_cons_of_mem f hg)

theorem WellFormed.mapSets (ht : t.WellFormed) {change : FrameSet → FrameSet}
    (hchange : ∀ s, s.WellFormed → (change s).WellFormed) : WellFormed ⟨t.sets.map change⟩ :=
  wellFormed_iff.2 (Grouped.all_map FrameSet.closed_wellFormed fun s hs => hchange s (ht.sets s hs))

theorem WellFormed.map (ht : t.WellFormed) {change : Frame → Frame}
    (hchange : ∀ f, f.WellFormed → (change f).WellFormed) : (t.map change).WellFormed :=
  ht.mapSets fun _ hs => hs.map hchange

theorem WellFormed.attachPosition (ht : t.WellFormed) (position : Position) :
    (t.attachPosition position).WellFormed := by
  refine wellFormed_empty.addAll fun g hg => ?_
  obtain ⟨f, hf, rfl⟩ := List.mem_map.1 hg
  exact (ht f (List.mem_filter.1 hf).1).startAt position

theorem wellFormed_relabel {features : MayAlways} (hfeatures : features.WellFormed)
    (kinds : List Kind) {s : FrameSet} (hs : s.WellFormed) :
    ∀ g ∈ relabel features kinds s, g.WellFormed := by
  intro g hg
  obtain ⟨kind, -, hg⟩ := List.mem_flatMap.1 hg
  obtain ⟨f, hf, rfl⟩ := List.mem_map.1 hg
  have hrelabelled : (f.withKind kind).WellFormed := hs f hf
  exact hrelabelled.addInferredFeatures hfeatures

theorem WellFormed.takeUp (ht : t.WellFormed) {s : FrameSet} (hs : s.WellFormed)
    (mapKind : Kind → List Kind) {featuresOf : Kind → MayAlways}
    (hfeatures : ∀ kind, (featuresOf kind).WellFormed) :
    (Taint.takeUp mapKind featuresOf t s).WellFormed := by
  unfold Taint.takeUp
  split
  · exact ht.addFrames hs
  · exact ht.addAll (wellFormed_relabel (hfeatures s.kind) _ hs)

theorem WellFormed.transformKinds (ht : t.WellFormed) (mapKind : Kind → List Kind)
    {featuresOf : Kind → MayAlways} (hfeatures : ∀ kind, (featuresOf kind).WellFormed) :
    (t.transformKinds mapKind featuresOf).WellFormed := by
  rw [transformKinds_eq_foldl]
  refine List.foldlRecOn _ _ wellFormed_empty fun acc hacc s hs => ?_
  exact hacc.takeUp (ht.sets s hs) mapKind hfeatures

theorem WellFormed.propagated (ht : t.WellFormed) (site : CallSite) {extra : MayAlways}
    (hextra : extra.WellFormed) : (t.propagated site extra).WellFormed := by
  refine wellFormed_iff.2 (Grouped.all_ofList FrameSet.closed_wellFormed fun p hp => ?_)
  obtain ⟨s, hs, rfl⟩ := List.mem_map.1 hp
  exact (ht.sets s hs).propagateWith site hextra

theorem WellFormed.of_propagate (ht : t.WellFormed) {site : CallSite} {extra : MayAlways}
    (hextra : extra.WellFormed) {c : Context} (h : (t.propagate site extra c).1 = .ok u) :
    u.WellFormed := by
  rw [FrameSet.eq_of_outcome h]
  exact ht.propagated site hextra

theorem WellFormed.of_mem_partitionByKind (ht : t.WellFormed) {kind : Kind}
    (h : (kind, u) ∈ t.partitionByKind) : u.WellFormed := by
  obtain ⟨s, hs, hpart⟩ := List.mem_map.1 h
  cases hpart
  exact wellFormed_empty.addFrames (ht.sets s hs)

theorem featuresJoined_eq (t : Taint) :
    t.featuresJoined = MayAlways.joinAll (t.frames.map Frame.features) := by
  rw [MayAlways.joinAll, List.foldl_map]
  rfl

theorem WellFormed.featuresJoined (ht : t.WellFormed) : t.featuresJoined.WellFormed := by
  rw [featuresJoined_eq]
  refine MayAlways.wellFormed_joinAll fun m hm => ?_
  obtain ⟨f, hf, rfl⟩ := List.mem_map.1 hm
  exact (ht f hf).features

end Taint

namespace CallPositionFrames

variable {c d : CallPositionFrames}

theorem wellFormed_of_add (hc : c.toTaint.WellFormed) {f : Frame} (hf : f.WellFormed)
    (h : c.add f = .ok d) : d.toTaint.WellFormed := by
  rw [toTaint_of_add h]
  exact hc.add hf

theorem wellFormed_of_propagate (hc : c.toTaint.WellFormed) {site : CallSite} {context : Context}
    (h : (c.propagate site context).1 = .ok d) : d.toTaint.WellFormed := by
  rw [FrameSet.eq_of_outcome h, toTaint_propagated]
  exact hc.propagated site trivial

end CallPositionFrames
end TaintFlow
