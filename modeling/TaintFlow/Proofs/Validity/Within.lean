import TaintFlow.Proofs.Order.Frames
import TaintFlow.Proofs.Validity.Operations

/-!
# Properties of all frames

What is said of every frame of a taint is kept by an operation when it is kept by joins of frames
and by what the operation does to one frame. Frames that are merged under one key need no argument
of their own: the frames with the property obey the laws of joins by themselves, so everything shown
of valid sets is shown of valid sets of such frames.
-/
namespace TaintFlow

variable {P Q : Frame → Prop}

/-- A join of frames with the property has it too. -/
def Frame.JoinClosed (P : Frame → Prop) : Prop := ∀ f g, P f → P g → P (f.join g)

namespace FrameSet

/-- The set is valid and all its frames have the property. -/
def Within (P : Frame → Prop) (s : FrameSet) : Prop := s.frames.Filed fun f => f.kind = s.kind ∧ P f

variable {s t : FrameSet}

theorem within_iff : s.Within P ↔ s.Valid ∧ ∀ f ∈ s.toList, P f := by
  rw [Within, Grouped.filed_iff, Valid, and_assoc]
  simp only [imp_and, forall_and, toList]

theorem Within.valid (hs : s.Within P) : s.Valid := (within_iff.1 hs).1

theorem Within.of_mem (hs : s.Within P) {f : Frame} (hf : f ∈ s.toList) : P f :=
  (within_iff.1 hs).2 f hf

theorem within_singleton {f : Frame} (hf : P f) : (singleton f).Within P := by
  have honly : (singleton f).toList = [f] := rfl
  refine within_iff.2 ⟨valid_singleton f, ?_⟩
  rw [honly, List.forall_mem_singleton]
  exact hf

section Closed

variable (hP : Frame.JoinClosed P)
include hP

theorem frameLawsWithin (kind : Kind) : Grouped.KeyLaws fun f : Frame => f.kind = kind ∧ P f :=
  fun key => (frameLaws kind key).restrict (fun hf => ⟨hf.1.1, hf.2⟩) fun hf hg =>
    have hjoin := (frameLaws kind key).join_mem ⟨hf.1.1, hf.2⟩ ⟨hg.1.1, hg.2⟩
    ⟨⟨hjoin.1, hP _ _ hf.1.2 hg.1.2⟩, hjoin.2⟩

theorem within_join (hs : s.Within P) (ht : t.Within P) (hkind : s.kind = t.kind) :
    (s.join t).Within P := by
  rw [join_eq ⟨hs.valid, hkind⟩ ⟨ht.valid, rfl⟩]
  have ht' : t.frames.Filed fun f => f.kind = s.kind ∧ P f := by
    rw [hkind]
    exact ht
  exact (frameLawsWithin hP s.kind).filed_join hs ht'

theorem setLawsWithin : Grouped.KeyLaws (Within P) := fun kind =>
  (setLaws kind).restrict (fun hs => ⟨hs.1.valid, hs.2⟩) fun hs ht =>
    have hjoin := (setLaws kind).join_mem ⟨hs.1.valid, hs.2⟩ ⟨ht.1.valid, ht.2⟩
    ⟨within_join hP hs.1 ht.1 (hs.2.trans ht.2.symm), hjoin.2⟩

/-- A meet keeps what is said of the frames on its left as far as a meet of two frames does. -/
theorem within_meet (hmeet : ∀ f g, P f → P (f.meet g)) (hs : s.Within P) (t : FrameSet) :
    (s.meet t).Within P := by
  unfold meet
  split
  · refine (frameLawsWithin hP s.kind).filed_combineShared ?_ hs
    intro key f g hf _
    obtain ⟨-, -, hkind, hf⟩ := hs key f hf
    exact ⟨hkind, hmeet f g hf⟩
  · exact Grouped.Filed.empty

omit hP in
theorem within_map (hQ : Frame.JoinClosed Q) (hs : s.Within P)
    {change : Frame → Frame} (hkind : ∀ f, (change f).kind = f.kind)
    (h : ∀ f, P f → Q (change f)) : (s.map change).Within Q := by
  refine (frameLawsWithin hQ s.kind).filed_map fun f hf => ?_
  exact ⟨(hkind f).trans (hs.valid.2 f hf), h f (hs.of_mem hf)⟩

end Closed

/-- The frames behind a call have a property when every producer that crosses gives one with the
property, and the ordinary frames are merged to one. -/
theorem within_propagate (hQ : Frame.JoinClosed Q) {site : CallSite}
    (hs : s.Within P)
    (hproducer : ∀ f g, P f → f.isProducerDeclaration → f.crossProducer? site = some g → Q g)
    (hmerged : ∀ kind fs g, (∀ f ∈ fs, f.kind = kind ∧ P f ∧ f.isProducerDeclaration = false) →
      Frame.merge? kind fs site site.constants = some g → Q g) : (s.propagate site).Within Q := by
  refine (frameLawsWithin hQ s.kind).filed_ofList fun g hg => ?_
  rcases List.mem_append.1 hg with hcrossed | hordinary
  · obtain ⟨f, hf, hcross⟩ := List.mem_filterMap.1 hcrossed
    obtain ⟨hmem, hdeclared⟩ := List.mem_filter.1 hf
    have hkind : f.kind = s.kind := hs.valid.2 f hmem
    exact ⟨(Frame.kind_of_crossProducer? hcross).trans hkind,
      hproducer f g (hs.of_mem hmem) hdeclared hcross⟩
  · have hmerge := Option.mem_toList.1 hordinary
    refine ⟨Frame.kind_of_merge? hmerge, hmerged s.kind s.ordinary g (fun f hf => ?_) hmerge⟩
    obtain ⟨hmem, hdeclared⟩ := List.mem_filter.1 hf
    exact ⟨hs.valid.2 f hmem, hs.of_mem hmem, by simpa using hdeclared⟩

theorem within_propagateWith (hQ : Frame.JoinClosed Q) {site : CallSite}
    {extra : MayAlways} (hs : (s.propagate site).Within Q)
    (hextra : ∀ f, Q f → Q { f with inferred := f.inferred.compose extra }) :
    (s.propagateWith extra site).Within Q := by
  unfold propagateWith
  split
  · exact hs
  · exact within_map hQ hs (fun _ => rfl) hextra

end FrameSet

namespace Taint

/-- The taint is valid and all its frames have the property. -/
def Within (P : Frame → Prop) (t : Taint) : Prop := t.sets.Filed (FrameSet.Within P)

variable {t u : Taint}

theorem within_iff : t.Within P ↔ t.Valid ∧ ∀ f ∈ t.frames, P f := by
  simp only [Within, Grouped.filed_iff, Valid, FrameSet.within_iff, mem_frames]
  constructor
  · intro hboth
    obtain ⟨hvalid, hsets⟩ := hboth
    refine ⟨⟨hvalid, fun s hs => (hsets s hs).1⟩, fun f hf => ?_⟩
    obtain ⟨s, hs, hmem⟩ := hf
    exact (hsets s hs).2 f hmem
  · intro hboth
    obtain ⟨⟨hvalid, hsets⟩, hframes⟩ := hboth
    exact ⟨hvalid, fun s hs => ⟨hsets s hs, fun f hf => hframes f ⟨s, hs, hf⟩⟩⟩

theorem Within.valid (ht : t.Within P) : t.Valid := (within_iff.1 ht).1

theorem Within.of_mem (ht : t.Within P) {f : Frame} (hf : f ∈ t.frames) : P f :=
  (within_iff.1 ht).2 f hf

theorem within_of_isEmpty (h : t.isEmpty) : t.Within P := by
  intro kind s hs
  cases (Grouped.isEmpty_iff.1 h kind).symm.trans hs

theorem within_add (hP : Frame.JoinClosed P) (ht : t.Within P) {f : Frame} (hf : P f) :
    (t.add f).Within P :=
  (FrameSet.setLawsWithin hP).filed_add ht (FrameSet.within_singleton hf)

theorem within_ofList (hP : Frame.JoinClosed P) {fs : List Frame} (hfs : ∀ f ∈ fs, P f) :
    (ofList fs).Within P := by
  have hfold : ∀ t : Taint, t.Within P → (fs.foldl add t).Within P := by
    induction fs with
    | nil => exact fun _ ht => ht
    | cons f fs ih =>
        intro t ht
        obtain ⟨hf, hfs⟩ := List.forall_mem_cons.1 hfs
        exact ih hfs _ (within_add hP ht hf)
  exact hfold ∅ (within_of_isEmpty rfl)

theorem within_join (hP : Frame.JoinClosed P) (ht : t.Within P)
    (hu : u.Within P) : (t.join u).Within P :=
  (FrameSet.setLawsWithin hP).filed_join ht hu

theorem within_widen (hP : Frame.JoinClosed P) (ht : t.Within P)
    (hu : u.Within P) : (t.widen u).Within P := by
  have heq : t.widen u = t.join u := joinLaws.widen_eq ht.valid hu.valid
  rw [heq]
  exact within_join hP ht hu

theorem within_meet (hP : Frame.JoinClosed P) (hmeet : ∀ f g, P f → P (f.meet g))
    (ht : t.Within P) (u : Taint) : (t.meet u).Within P := by
  refine (FrameSet.setLawsWithin hP).filed_combineShared ?_ ht
  intro kind s s' hs _
  exact FrameSet.within_meet hP hmeet (ht kind s hs).2.2 s'

theorem within_map (hQ : Frame.JoinClosed Q) (ht : t.Within P) {change : Frame → Frame}
    (hkind : ∀ f, (change f).kind = f.kind) (h : ∀ f, P f → Q (change f)) :
    (t.map change).Within Q :=
  (FrameSet.setLawsWithin hQ).filed_map fun _ hs => FrameSet.within_map hQ (ht.mem hs) hkind h

theorem within_appendPort (hP : Frame.JoinClosed P) (ht : t.Within P)
    {element : PathElement} {p : Kind → Bool} (h : ∀ f, P f → P (f.appendPort element)) :
    (t.appendPort element p).Within P := by
  refine (FrameSet.setLawsWithin hP).filed_map fun s hs => ?_
  split
  · exact FrameSet.within_map hP (ht.mem hs) (fun _ => rfl) h
  · exact ht.mem hs

/-- A property of all frames behind a call, from a property of all frames in front of it. -/
theorem within_propagated (hQ : Frame.JoinClosed Q) {site : CallSite}
    {extra : MayAlways} (ht : t.Within P)
    (hproducer : ∀ f g, P f → f.isProducerDeclaration → f.crossProducer? site = some g → Q g)
    (hmerged : ∀ kind fs g, (∀ f ∈ fs, f.kind = kind ∧ P f ∧ f.isProducerDeclaration = false) →
      Frame.merge? kind fs site site.constants = some g → Q g)
    (hextra : ∀ f, Q f → Q { f with inferred := f.inferred.compose extra }) :
    (t.propagated site extra).Within Q := by
  refine (FrameSet.setLawsWithin hQ).filed_ofList fun s hs => ?_
  obtain ⟨s', hs', rfl⟩ := List.mem_map.1 hs
  exact FrameSet.within_propagateWith hQ
    (FrameSet.within_propagate hQ (ht.mem hs') hproducer hmerged) hextra

end Taint
end TaintFlow
