import TaintFlow.Frame.Basic
import TaintFlow.Proofs.Order.Features

/-!
# The order of frames

Frames of one kind under one key form a join-semilattice. A join stays under the key, since it has
canonical names exactly when one of the two frames has. A meet is below both frames, but need not
stay under their key: two frames with canonical names may have none in common, and then their meet
is filed among the frames without canonical names.
-/
namespace TaintFlow.Frame
open AbstractDomain

theorem isCrtex_eq_true_iff {f : Frame} : f.isCrtex = true ↔ ∃ n, n ∈ f.canonicalNames := by
  rw [isCrtex, Bool.not_eq_true', ← Bool.not_eq_true, SortedSet.isEmpty_iff]
  simp only [Classical.not_forall, Classical.not_not]

theorem leq_iff {f g : Frame} : f.leq g ↔
    g.distance ≤ f.distance ∧ (∀ x, x ∈ f.origins → x ∈ g.origins) ∧
      (∀ x, x ∈ f.fieldOrigins → x ∈ g.fieldOrigins) ∧ f.inferred.leq g.inferred ∧
      f.locallyInferred.leq g.locallyInferred ∧
      (∀ x, x ∈ f.userFeatures → x ∈ g.userFeatures) ∧
      (∀ x, x ∈ f.viaTypePorts → x ∈ g.viaTypePorts) ∧
      (∀ x, x ∈ f.viaValuePorts → x ∈ g.viaValuePorts) ∧
      (∀ x, x ∈ f.localPositions → x ∈ g.localPositions) ∧
      ∀ x, x ∈ f.canonicalNames → x ∈ g.canonicalNames := by
  simp only [leq, Bool.and_eq_true, decide_eq_true_eq, SortedSet.isSubset_iff, and_assoc]

theorem leq_refl (f : Frame) : f.leq f :=
  leq_iff.2 ⟨UInt32.le_refl _, fun _ h => h, fun _ h => h, MayAlways.leq_refl _,
    MayAlways.leq_refl _, fun _ h => h, fun _ h => h, fun _ h => h, fun _ h => h, fun _ h => h⟩

theorem leq_trans {f g h : Frame} (hfg : f.leq g) (hgh : g.leq h) : f.leq h := by
  obtain ⟨d, o, fo, i, li, u, vt, vv, lp, cn⟩ := leq_iff.1 hfg
  obtain ⟨d', o', fo', i', li', u', vt', vv', lp', cn'⟩ := leq_iff.1 hgh
  refine leq_iff.2 ⟨UInt32.le_trans d' d, fun x hx => o' x (o x hx), fun x hx => fo' x (fo x hx),
    MayAlways.leq_trans i i', MayAlways.leq_trans li li', fun x hx => u' x (u x hx),
    fun x hx => vt' x (vt x hx), fun x hx => vv' x (vv x hx), fun x hx => lp' x (lp x hx),
    fun x hx => cn' x (cn x hx)⟩

/-- Kind and key hold all that the order does not look at. -/
theorem leq_antisymm {f g : Frame} (hkind : f.kind = g.kind) (hkey : f.key = g.key)
    (hfg : f.leq g) (hgf : g.leq f) : f = g := by
  obtain ⟨d, o, fo, i, li, u, vt, vv, lp, cn⟩ := leq_iff.1 hfg
  obtain ⟨d', o', fo', i', li', u', vt', vv', lp', cn'⟩ := leq_iff.1 hgf
  have hd := UInt32.le_antisymm d d'
  have ho := SortedSet.eq_of_subset o o'
  have hfo := SortedSet.eq_of_subset fo fo'
  have hi := MayAlways.leq_antisymm i i'
  have hli := MayAlways.leq_antisymm li li'
  have hu := SortedSet.eq_of_subset u u'
  have hvt := SortedSet.eq_of_subset vt vt'
  have hvv := SortedSet.eq_of_subset vv vv'
  have hlp := SortedSet.eq_of_subset lp lp'
  have hcn := SortedSet.eq_of_subset cn cn'
  simp only [key, FrameKey.mk.injEq] at hkey
  cases f
  cases g
  simp_all

theorem leq_join_left (f g : Frame) : f.leq (f.join g) := by
  refine leq_iff.2 ⟨Std.min_le_left, ?_, ?_, MayAlways.leq_join_left _ _,
    MayAlways.leq_join_left _ _, ?_, ?_, ?_, ?_, ?_⟩
  all_goals simp +contextual [join]

theorem leq_join_right (f g : Frame) : g.leq (f.join g) := by
  refine leq_iff.2 ⟨Std.min_le_right, ?_, ?_, MayAlways.leq_join_right _ _,
    MayAlways.leq_join_right _ _, ?_, ?_, ?_, ?_, ?_⟩
  all_goals simp +contextual [join]

theorem join_leq {f g h : Frame} (hfh : f.leq h) (hgh : g.leq h) : (f.join g).leq h := by
  obtain ⟨d, o, fo, i, li, u, vt, vv, lp, cn⟩ := leq_iff.1 hfh
  obtain ⟨d', o', fo', i', li', u', vt', vv', lp', cn'⟩ := leq_iff.1 hgh
  refine leq_iff.2 ⟨Std.le_min_iff.2 ⟨d, d'⟩, ?_, ?_, MayAlways.join_leq i i',
    MayAlways.join_leq li li', ?_, ?_, ?_, ?_, ?_⟩
  all_goals
    simp only [join, SortedSet.mem_union]
    intro x heither
    rcases heither with hx | hx
  all_goals simp_all

theorem isCrtex_join (f g : Frame) : (f.join g).isCrtex = (f.isCrtex || g.isCrtex) := by
  simp only [isCrtex, join, SortedSet.isEmpty_union, Bool.not_and]

theorem key_join {f g : Frame} (h : g.key = f.key) : (f.join g).key = f.key := by
  have hc : g.isCrtex = f.isCrtex := congrArg FrameKey.isCrtex h
  have hj : (f.join g).isCrtex = f.isCrtex := by rw [isCrtex_join, hc, Bool.or_self]
  simp only [key, hj]
  rfl

theorem joinLaws (kind : Kind) (key : FrameKey) :
    JoinLaws fun f : Frame => f.kind = kind ∧ f.key = key where
  leq_refl _ := leq_refl _
  leq_trans _ _ _ := leq_trans
  leq_antisymm hf hg := leq_antisymm (hf.1.trans hg.1.symm) (hf.2.trans hg.2.symm)
  equals_iff _ _ := decide_eq_true_iff
  join_mem hf hg := ⟨hf.1, (key_join (hg.2.trans hf.2.symm)).trans hf.2⟩
  leq_join_left _ _ := leq_join_left _ _
  leq_join_right _ _ := leq_join_right _ _
  join_leq _ _ _ := join_leq
  widen_eq _ _ := rfl
  isBottom_join _ _ := rfl
  leq_of_isBottom _ _ h := Bool.noConfusion h

theorem distance_leq_meet (f g : Frame) :
    f.distance ≤ (f.meet g).distance ∧ g.distance ≤ (f.meet g).distance := by
  show f.distance ≤ (if f.distance ≤ g.distance then g.distance else f.distance) ∧
    g.distance ≤ (if f.distance ≤ g.distance then g.distance else f.distance)
  split
  · rename_i h
    exact ⟨h, UInt32.le_refl _⟩
  · rename_i h
    exact ⟨UInt32.le_refl _, UInt32.le_of_lt (UInt32.not_le.1 h)⟩

theorem meet_leq_left (f g : Frame) : (f.meet g).leq f := by
  refine leq_iff.2 ⟨(distance_leq_meet f g).1, ?_, ?_, MayAlways.meet_leq_left _ _,
    MayAlways.meet_leq_left _ _, ?_, ?_, ?_, ?_, ?_⟩
  all_goals simp +contextual [meet]

theorem meet_leq_right (f g : Frame) : (f.meet g).leq g := by
  refine leq_iff.2 ⟨(distance_leq_meet f g).2, ?_, ?_, MayAlways.meet_leq_right _ _,
    MayAlways.meet_leq_right _ _, ?_, ?_, ?_, ?_, ?_⟩
  all_goals simp +contextual [meet]

end TaintFlow.Frame
