import TaintFlow.CallPositionFrames
import TaintFlow.Proofs.Grouped.Order
import TaintFlow.Proofs.Order.Frame

/-!
# The order of taint

Valid taint is a join-semilattice, and so are the frames at one call position. The argument goes
through the two levels of the representation: frames of one kind under one key obey the laws, hence
valid frame sets of one kind do, hence valid taint does. On sets of one kind the operations are
those of their frames, also where a set is empty.
-/
namespace TaintFlow

namespace FrameSet

variable {s t : FrameSet}

theorem frameLaws (kind : Kind) : Grouped.KeyLaws fun f : Frame => f.kind = kind :=
  fun key => Frame.joinLaws kind key

theorem valid_iff : s.Valid ↔ s.frames.Filed (·.kind = s.kind) := Grouped.filed_iff.symm

theorem frames_eq_empty (h : s.isEmpty) : s.frames = ∅ := Grouped.eq_empty_of_isEmpty h

theorem exists_get?_of_isEmpty_eq_false (h : s.isEmpty = false) : ∃ key f, s.get? key = some f := by
  rw [← Bool.not_eq_true, isEmpty, Grouped.isEmpty_iff, Classical.not_forall] at h
  obtain ⟨key, hkey⟩ := h
  exact ⟨key, Option.ne_none_iff_exists'.1 hkey⟩

theorem leq_eq (hkind : s.kind = t.kind) : s.leq t = s.frames.leq t.frames := by
  cases hs : s.isEmpty with
  | true =>
      rw [frames_eq_empty hs, leq, hs, Bool.true_or]
      rfl
  | false => simp only [leq, hs, hkind, Bool.false_or, decide_true, Bool.true_and]

theorem isEmpty_of_leq (h : s.leq t) (ht : t.isEmpty) : s.isEmpty := by
  rw [leq, Bool.or_eq_true, Bool.and_eq_true, frames_eq_empty ht] at h
  rcases h with hempty | ⟨-, hle⟩
  · exact hempty
  · refine Grouped.isEmpty_iff.2 fun key => Option.eq_none_iff_forall_ne_some.2 fun f hf => ?_
    rcases Grouped.leq_iff.1 hle key f hf with ⟨c, hc, -⟩
    cases hc

theorem eq_of_frames (hkind : s.kind = t.kind) (h : s.frames = t.frames) : s = t := by
  cases s
  cases t
  simp_all

variable {kind : Kind}

theorem filed_of_kind (hs : s.Valid ∧ s.kind = kind) : s.frames.Filed (·.kind = kind) :=
  hs.2 ▸ valid_iff.1 hs.1

section SameKind

variable (hs : s.Valid ∧ s.kind = kind) (ht : t.Valid ∧ t.kind = kind)
include hs ht

theorem frames_join_of_isEmpty_right (h : t.isEmpty) : s.frames.join t.frames = s.frames := by
  have L := (frameLaws kind).joinLaws
  have hle := L.leq_of_isBottom (filed_of_kind ht) (filed_of_kind hs) h
  exact L.join_eq_left (filed_of_kind hs) (filed_of_kind ht) hle

theorem frames_join_of_isEmpty_left (h : s.isEmpty) : s.frames.join t.frames = t.frames := by
  have L := (frameLaws kind).joinLaws
  have hle := L.leq_of_isBottom (filed_of_kind hs) (filed_of_kind ht) h
  exact L.join_eq_right (filed_of_kind hs) (filed_of_kind ht) hle

/-- On sets of one kind the join is that of their frames, also when one of them is empty. -/
theorem join_eq : s.join t = { s with frames := s.frames.join t.frames } := by
  unfold join
  split
  · rename_i hempty
    rw [frames_join_of_isEmpty_right hs ht hempty]
  · split
    · rename_i hempty
      rw [frames_join_of_isEmpty_left hs ht hempty]
      exact eq_of_frames (ht.2.trans hs.2.symm) rfl
    · rfl

theorem widen_eq_join : s.widen t = s.join t := by
  rw [join_eq hs ht]
  unfold widen
  split
  · rename_i hempty
    rw [frames_join_of_isEmpty_left hs ht hempty]
    exact eq_of_frames (ht.2.trans hs.2.symm) rfl
  · split
    · rename_i hempty
      rw [frames_join_of_isEmpty_right hs ht hempty]
    · rw [(frameLaws kind).widen_eq_join (filed_of_kind hs) (filed_of_kind ht)]

theorem equals_eq : s.equals t = s.frames.equals t.frames := by
  have hframes := (frameLaws kind).equals_iff (filed_of_kind hs) (filed_of_kind ht)
  unfold equals
  split
  · rw [Bool.eq_iff_iff, hframes, Bool.and_eq_true]
    constructor
    · intro hboth'
      rcases hboth' with ⟨hse, hte⟩
      rw [frames_eq_empty hse, frames_eq_empty hte]
    · intro heq
      have hboth : s.isEmpty = t.isEmpty := congrArg Grouped.isEmpty heq
      simp_all
  · rw [hs.2, ht.2, decide_eq_true rfl, Bool.true_and]

theorem join_mem : (s.join t).Valid ∧ (s.join t).kind = kind := by
  rw [join_eq hs ht]
  have hfiled := (frameLaws kind).filed_join (filed_of_kind hs) (filed_of_kind ht)
  exact ⟨valid_iff.2 (hs.2 ▸ hfiled), hs.2⟩

end SameKind

theorem setLaws : Grouped.KeyLaws FrameSet.Valid := fun kind =>
  (frameLaws kind).joinLaws.comap frames filed_of_kind
    (fun hs ht => eq_of_frames (hs.2.trans ht.2.symm))
    (fun hs ht => leq_eq (hs.2.trans ht.2.symm)) equals_eq join_mem
    (fun hs ht => congrArg frames (join_eq hs ht)) widen_eq_join fun _ => rfl

/-- A change that keeps kinds and keys acts on each frame where it stands. -/
theorem get?_map (hs : s.Valid) {change : Frame → Frame} (hkind : ∀ f, (change f).kind = f.kind)
    (hkey : ∀ f, (change f).key = f.key) (key : FrameKey) :
    (s.map change).get? key = (s.get? key).map change := by
  have hfiled := valid_iff.1 hs
  have hkeep : ∀ key f, s.get? key = some f →
      (change f).kind = s.kind ∧ Grouping.groupKey (change f) = key := by
    intro key f hf
    obtain ⟨hkey', -, hkind'⟩ := hfiled key f hf
    exact ⟨(hkind f).trans hkind', (hkey f).trans hkey'⟩
  refine ((frameLaws s.kind).get?_map hfiled hkeep).trans ?_
  change Option.filter (fun _ => true) (Option.map _ (s.get? key)) = _
  cases s.get? key <;> rfl

theorem toList_filter (s : FrameSet) (keep : Frame → Bool) :
    (s.filter keep).toList = s.toList.filter keep := List.filter_map.symm

theorem valid_singleton (f : Frame) : (singleton f).Valid := by
  refine valid_iff.2 ((frameLaws f.kind).filed_ofList fun g hg => ?_)
  rw [List.mem_singleton.1 hg]

end FrameSet

namespace Taint

variable {t u : Taint}

theorem valid_iff : t.Valid ↔ t.sets.Filed FrameSet.Valid := Grouped.filed_iff.symm

theorem eq_of_sets (h : t.sets = u.sets) : t = u := by
  cases t
  exact congrArg Taint.mk h

theorem joinLaws : JoinLaws Taint.Valid :=
  FrameSet.setLaws.joinLaws.comap sets valid_iff.1 (fun _ _ => eq_of_sets) (fun _ _ => rfl)
    (fun _ _ => rfl)
    (fun ht hu => valid_iff.2 (FrameSet.setLaws.filed_join (valid_iff.1 ht) (valid_iff.1 hu)))
    (fun _ _ => rfl)
    (fun ht hu => eq_of_sets (FrameSet.setLaws.widen_eq_join (valid_iff.1 ht) (valid_iff.1 hu)))
    fun _ => rfl

theorem valid_empty : (∅ : Taint).Valid := valid_iff.2 Grouped.Filed.empty

theorem valid_addFrames (ht : t.Valid) {s : FrameSet} (hs : s.Valid) : (t.addFrames s).Valid :=
  valid_iff.2 (FrameSet.setLaws.filed_add (valid_iff.1 ht) hs)

theorem valid_add (ht : t.Valid) (f : Frame) : (t.add f).Valid :=
  valid_addFrames ht (FrameSet.valid_singleton f)

theorem valid_foldl_add (ht : t.Valid) (fs : List Frame) : (fs.foldl add t).Valid := by
  induction fs generalizing t with
  | nil => exact ht
  | cons f fs ih => exact ih (valid_add ht f)

theorem valid_ofList (fs : List Frame) : (ofList fs).Valid := valid_foldl_add valid_empty fs

def frame? (t : Taint) (kind : Kind) (key : FrameKey) : Option Frame :=
  (t.get? kind).bind (·.get? key)

theorem frame?_eq_some_iff {kind : Kind} {key : FrameKey} {f : Frame} :
    t.frame? kind key = some f ↔ ∃ s, t.get? kind = some s ∧ s.get? key = some f :=
  Option.bind_eq_some_iff

theorem frame?_of_get? {kind : Kind} {s : FrameSet} (hs : t.get? kind = some s)
    (key : FrameKey) : t.frame? kind key = s.get? key := by
  rw [frame?, hs, Option.bind_some]

theorem valid_of_get? (ht : t.Valid) {kind : Kind} {s : FrameSet} (hs : t.get? kind = some s) :
    s.Valid ∧ s.kind = kind :=
  ⟨(valid_iff.1 ht kind s hs).2.2, (valid_iff.1 ht kind s hs).1⟩

theorem key_of_frame? (ht : t.Valid) {kind : Kind} {key : FrameKey} {f : Frame}
    (hf : t.frame? kind key = some f) : f.kind = kind ∧ f.key = key := by
  rcases frame?_eq_some_iff.1 hf with ⟨s, hs, hfs⟩
  have hfiled := FrameSet.filed_of_kind (valid_of_get? ht hs) key f hfs
  exact ⟨hfiled.2.2, hfiled.1⟩

end Taint
end TaintFlow
