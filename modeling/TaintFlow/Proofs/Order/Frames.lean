import TaintFlow.Proofs.Order.Taint

/-!
# Taint as a collection of frames

The two levels of a taint, kinds and keys, are no more than the way in which its frames are found. A
valid taint is determined by its frames. It is below another one exactly when each of its frames is
below the frame that stands there under the same kind and key, and its join with a taint that has no
kind and key in common with it has the frames of both and no others.
-/
namespace TaintFlow

namespace Taint

variable {t u : Taint} {f : Frame} {kind : Kind} {key : FrameKey}

/-- The frames of one kind; there are none when the kind is absent. -/
def framesOf (t : Taint) (kind : Kind) : Grouped FrameKey Frame :=
  (t.get? kind).elim ∅ FrameSet.frames

theorem frame?_eq (kind : Kind) (key : FrameKey) :
    t.frame? kind key = (t.framesOf kind).get? key := by
  unfold frame? framesOf
  cases t.get? kind <;> rfl

theorem filed_framesOf (ht : t.Valid) (kind : Kind) : (t.framesOf kind).Filed (·.kind = kind) := by
  unfold framesOf
  cases hs : t.get? kind with
  | none => exact Grouped.Filed.empty
  | some s => exact FrameSet.filed_of_kind (valid_of_get? ht hs)

/-- A change of whole sets that keeps kinds shows in the frames set by set. -/
theorem frame?_mapSets (ht : t.Valid) {change : FrameSet → FrameSet}
    (hchange : ∀ s, s.Valid → (change s).Valid ∧ (change s).kind = s.kind) :
    frame? ⟨t.sets.map change⟩ kind key = (t.get? kind).bind fun s => (change s).get? key := by
  have hkeep : ∀ kind s, t.sets.get? kind = some s →
      (change s).Valid ∧ Grouping.groupKey (change s) = kind := by
    intro kind s hs
    obtain ⟨hvalid, hkind⟩ := valid_of_get? ht hs
    exact ⟨(hchange s hvalid).1, (hchange s hvalid).2.trans hkind⟩
  have hget : (t.sets.map change).get? kind =
      ((t.get? kind).map change).filter (!FrameSet.isEmpty ·) :=
    FrameSet.setLaws.get?_map (valid_iff.1 ht) hkeep
  rw [frame?, get?, hget]
  cases t.get? kind with
  | none => rfl
  | some s =>
      rw [Option.map_some, Option.bind_some, Option.filter_some]
      cases hempty : (change s).isEmpty with
      | true => exact (Grouped.isEmpty_iff.1 hempty key).symm
      | false => rfl

/-- A change of frames that keeps kinds and keys acts on each frame where it stands. -/
theorem frame?_map (ht : t.Valid) {change : Frame → Frame} (hkind : ∀ f, (change f).kind = f.kind)
    (hkey : ∀ f, (change f).key = f.key) :
    (t.map change).frame? kind key = (t.frame? kind key).map change := by
  have hvalid (s : FrameSet) (hs : s.Valid) : (s.map change).Valid := by
    refine FrameSet.valid_iff.2 ((FrameSet.frameLaws s.kind).filed_map fun f hf => ?_)
    exact (hkind f).trans (hs.2 f hf)
  refine (frame?_mapSets ht fun s hs => ⟨hvalid s hs, rfl⟩).trans ?_
  rw [frame?]
  cases hs : t.get? kind with
  | none => rfl
  | some s => exact FrameSet.get?_map (valid_of_get? ht hs).1 hkind hkey key

theorem mem_frames : f ∈ t.frames ↔ ∃ s ∈ t.sets.elements, f ∈ s.toList := by
  rw [frames, List.mem_flatMap]

theorem mem_frames_iff (ht : t.Valid) : f ∈ t.frames ↔ t.frame? f.kind f.key = some f := by
  rw [mem_frames, frame?_eq_some_iff]
  constructor
  · intro hfound
    obtain ⟨s, hs, hf⟩ := hfound
    have hstand := (valid_iff.1 ht).get?_groupKey hs
    have hkind : f.kind = s.kind := (ht.2 s hs).2 f hf
    refine ⟨s, ?_, (FrameSet.valid_iff.1 (ht.2 s hs)).get?_groupKey hf⟩
    rw [hkind]
    exact hstand
  · intro hfound
    obtain ⟨s, hs, hf⟩ := hfound
    exact ⟨s, Grouped.mem_elements.2 ⟨_, hs⟩, Grouped.mem_elements.2 ⟨_, hf⟩⟩

theorem isEmpty_of_forall_not_mem_frames (ht : t.Valid) (hnone : ∀ f, f ∉ t.frames) :
    t.isEmpty := by
  refine Grouped.isEmpty_iff.2 fun kind => Option.eq_none_iff_forall_ne_some.2 fun s hs => ?_
  obtain ⟨-, hsome, -⟩ := valid_iff.1 ht kind s hs
  obtain ⟨key, f, hf⟩ := FrameSet.exists_get?_of_isEmpty_eq_false hsome
  have hmem : f ∈ s.toList := Grouped.mem_elements.2 ⟨key, hf⟩
  exact hnone f (mem_frames.2 ⟨s, Grouped.mem_elements.2 ⟨kind, hs⟩, hmem⟩)

theorem nodup_frames (ht : t.Valid) : t.frames.Nodup := by
  have hkinds : t.sets.elements.Pairwise fun s s' => s.kind ≠ s'.kind := by
    refine List.pairwise_map.1 ?_
    rw [show t.sets.elements.map FrameSet.kind = _ from ht.1.map_groupKey]
    exact Grouped.nodup_keys t.sets
  refine List.pairwise_flatMap.2 ⟨fun s hs => Grouped.Valid.nodup_elements (ht.2 s hs).1, ?_⟩
  refine hkinds.imp_of_mem fun hs hs' hne f hf g hg heq => hne ?_
  rw [← (ht.2 _ hs).2 f hf, heq, (ht.2 _ hs').2 g hg]

/-- Whether the frame that stands under the kind and the key of `f` is above `f`. -/
def Covers (u : Taint) (f : Frame) : Prop := Grouped.Below (some f) (u.frame? f.kind f.key)

theorem covers_iff_of_kind (hkind : f.kind = kind) :
    u.Covers f ↔ (u.framesOf kind).Covers f := by
  subst hkind
  rw [Covers, frame?_eq]
  rfl

/-- All frames of a valid set are covered exactly when the set is below what has its kind. -/
theorem forall_covers_iff {s : FrameSet} (hs : s.Valid) :
    (∀ f ∈ s.toList, u.Covers f) ↔ s.frames.leq (u.framesOf s.kind) := by
  rw [(FrameSet.valid_iff.1 hs).leq_iff_covers]
  exact forall_congr' fun f => forall_congr' fun hf => covers_iff_of_kind (hs.2 f hf)

/-- Merging frames of one kind covers no more and no less than the frames. -/
theorem forall_covers_ofList_iff (hu : u.Valid) {fs : List Frame} (hfs : ∀ f ∈ fs, f.kind = kind) :
    (∀ f ∈ FrameSet.toList ⟨kind, .ofList fs⟩, u.Covers f) ↔ ∀ f ∈ fs, u.Covers f := by
  have hvalid : FrameSet.Valid ⟨kind, .ofList fs⟩ :=
    FrameSet.valid_iff.2 ((FrameSet.frameLaws kind).filed_ofList hfs)
  rw [forall_covers_iff hvalid]
  refine ((FrameSet.frameLaws kind).ofList_leq_iff hfs (filed_framesOf hu kind)).trans ?_
  refine forall_congr' fun f => forall_congr' fun hf => ?_
  rw [covers_iff_of_kind (hfs f hf)]
  exact forall_prop_of_true rfl

/-- An empty set is covered whatever its kind, and is never asked about. -/
theorem covers_set_iff (hu : u.Valid) {s : FrameSet} (hs : s.Valid) :
    (s.isEmpty = false → u.sets.Covers s) ↔ ∀ f ∈ s.toList, u.Covers f := by
  rw [forall_covers_iff hs]
  cases hempty : s.isEmpty with
  | true =>
      rw [FrameSet.frames_eq_empty hempty]
      exact iff_of_true (fun h => Bool.noConfusion h) rfl
  | false =>
      change (_ → Grouped.Below (some s) (u.get? s.kind)) ↔ _
      rw [forall_prop_of_true rfl, framesOf]
      cases hc : u.get? s.kind with
      | none =>
          obtain ⟨key, f, hf⟩ := FrameSet.exists_get?_of_isEmpty_eq_false hempty
          refine iff_of_false Grouped.not_below_none fun hle => ?_
          have hbelow := Grouped.leq_iff.1 hle key
          rw [show s.frames.get? key = some f from hf] at hbelow
          exact Grouped.not_below_none hbelow
      | some c =>
          rw [Grouped.below_some]
          have hleq := FrameSet.leq_eq (valid_of_get? hu hc).2.symm
          exact iff_of_eq (congrArg (· = true) hleq)

/-- A valid taint is below another one when all its frames are covered there. -/
theorem leq_iff_covers (ht : t.Valid) (hu : u.Valid) : t.leq u ↔ ∀ f ∈ t.frames, u.Covers f := by
  have hsets : t.leq u ↔ ∀ s ∈ t.sets.elements, u.sets.Covers s := (valid_iff.1 ht).leq_iff_covers
  simp only [hsets, mem_frames, forall_exists_index, and_imp]
  constructor
  · intro hall f s hs hf
    exact (covers_set_iff hu (ht.2 s hs)).1 (fun _ => hall s hs) f hf
  · intro hall s hs
    refine (covers_set_iff hu (ht.2 s hs)).2 (fun f hf => hall f s hs hf) ?_
    exact (valid_iff.1 ht).isBottom_eq_false hs

/-- Sets that are collected are the least taint that covers their frames. -/
theorem collected_leq_iff {sets : List FrameSet} (hsets : ∀ s ∈ sets, s.Valid) (hu : u.Valid) :
    Taint.leq ⟨.ofList sets⟩ u ↔ ∀ s ∈ sets, ∀ f ∈ s.toList, u.Covers f := by
  refine (FrameSet.setLaws.ofList_leq_iff hsets (valid_iff.1 hu)).trans ?_
  exact forall_congr' fun s => forall_congr' fun hs => covers_set_iff hu (hsets s hs)

theorem eq_of_mem_frames (ht : t.Valid) (hu : u.Valid) (h : ∀ f, f ∈ t.frames ↔ f ∈ u.frames) :
    t = u := by
  refine joinLaws.eq_of_forall_leq_iff ht hu fun v hv => ?_
  refine (leq_iff_covers ht hv).trans (Iff.trans ?_ (leq_iff_covers hu hv).symm)
  exact forall_congr' fun f => by rw [h]

/-- Frames under one kind and key are joined. -/
theorem frame?_join (ht : t.Valid) (hu : u.Valid) (kind : Kind) (key : FrameKey) :
    (t.join u).frame? kind key = (t.frame? kind key).merge Frame.join (u.frame? kind key) := by
  have hget : (t.join u).get? kind = (t.get? kind).merge FrameSet.join (u.get? kind) :=
    hu.1.get?_join kind
  unfold frame?
  rw [hget]
  cases hs : t.get? kind with
  | none => cases u.get? kind <;> simp
  | some s =>
      cases hs' : u.get? kind with
      | none => simp
      | some s' =>
          have hjoin := FrameSet.join_eq (valid_of_get? ht hs) (valid_of_get? hu hs')
          have hframes := Grouped.Valid.get?_join (g := s.frames) (valid_of_get? hu hs').1.1 key
          simp only [Option.merge_some_some, Option.bind_some, hjoin]
          exact hframes

/-- No two frames share both kind and key. -/
def DisjointFrames (t u : Taint) : Prop :=
  ∀ f ∈ t.frames, ∀ g ∈ u.frames, f.kind = g.kind → f.key ≠ g.key

theorem mem_frames_of_frame? (ht : t.Valid) (hf : t.frame? kind key = some f) : f ∈ t.frames := by
  obtain ⟨rfl, rfl⟩ := key_of_frame? ht hf
  exact (mem_frames_iff ht).2 hf

theorem DisjointFrames.frame?_eq_none (ht : t.Valid) (hu : u.Valid) (h : t.DisjointFrames u)
    (kind : Kind) (key : FrameKey) : t.frame? kind key = none ∨ u.frame? kind key = none := by
  cases hf : t.frame? kind key with
  | none => exact .inl rfl
  | some f =>
      right
      refine Option.eq_none_iff_forall_ne_some.2 fun g hg => ?_
      obtain ⟨hkind, hkey⟩ := key_of_frame? ht hf
      obtain ⟨hkind', hkey'⟩ := key_of_frame? hu hg
      have hne := h f (mem_frames_of_frame? ht hf) g (mem_frames_of_frame? hu hg)
      exact hne (hkind.trans hkind'.symm) (hkey.trans hkey'.symm)

def DisjointKinds (t u : Taint) : Prop := ∀ kind ∈ t.kinds, kind ∉ u.kinds

theorem mem_kinds (ht : t.Valid) : kind ∈ t.kinds ↔ ∃ s, t.get? kind = some s := by
  rw [kinds, List.mem_map]
  constructor
  · intro hfound
    obtain ⟨s, hs, rfl⟩ := hfound
    exact ⟨s, (valid_iff.1 ht).get?_groupKey hs⟩
  · intro hfound
    obtain ⟨s, hs⟩ := hfound
    exact ⟨s, Grouped.mem_elements.2 ⟨kind, hs⟩, (valid_of_get? ht hs).2⟩

theorem DisjointKinds.get?_eq_none (ht : t.Valid) (hu : u.Valid) (h : t.DisjointKinds u)
    (kind : Kind) : t.get? kind = none ∨ u.get? kind = none := by
  simp only [DisjointKinds, mem_kinds ht, mem_kinds hu] at h
  cases hs : t.get? kind with
  | none => exact .inl rfl
  | some s =>
      right
      exact Option.eq_none_iff_forall_ne_some.2 fun s' hs' => h kind ⟨s, hs⟩ ⟨s', hs'⟩

theorem DisjointKinds.disjointFrames (ht : t.Valid) (hu : u.Valid) (h : t.DisjointKinds u) :
    t.DisjointFrames u := by
  intro f hf g hg hkind
  obtain ⟨s, hs, -⟩ := frame?_eq_some_iff.1 ((mem_frames_iff ht).1 hf)
  obtain ⟨s', hs', -⟩ := frame?_eq_some_iff.1 ((mem_frames_iff hu).1 hg)
  rw [hkind] at hs
  rcases h.get?_eq_none ht hu g.kind with hnone | hnone
  · cases hs.symm.trans hnone
  · cases hs'.symm.trans hnone

theorem mem_frames_join (ht : t.Valid) (hu : u.Valid) (h : t.DisjointFrames u) :
    f ∈ (t.join u).frames ↔ f ∈ t.frames ∨ f ∈ u.frames := by
  have htu : (t.join u).Valid := joinLaws.join_mem ht hu
  rw [mem_frames_iff htu, mem_frames_iff ht, mem_frames_iff hu, frame?_join ht hu]
  rcases h.frame?_eq_none ht hu f.kind f.key with hnone | hnone
  · simp [hnone]
  · simp [hnone]

theorem frames_join_perm (ht : t.Valid) (hu : u.Valid) (h : t.DisjointFrames u) :
    (t.join u).frames.Perm (t.frames ++ u.frames) := by
  have htu : (t.join u).Valid := joinLaws.join_mem ht hu
  have hnodup : (t.frames ++ u.frames).Nodup := by
    refine List.nodup_append.2 ⟨nodup_frames ht, nodup_frames hu, fun f hf g hg heq => ?_⟩
    subst heq
    exact h f hf f hg rfl rfl
  refine (List.perm_ext_iff_of_nodup (nodup_frames htu) hnodup).2 fun f => ?_
  rw [List.mem_append, mem_frames_join ht hu h]

end Taint
end TaintFlow
