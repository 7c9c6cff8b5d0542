import TaintFlow.Proofs.Order.Frames
import TaintFlow.Proofs.Order.Semilattice
import TaintFlow.Proofs.Validity.Operations

/-!
# Differences

A frame is implied by other frames when one of them has its kind and its key and is above it. What
is left of a value, once another value is taken away, are exactly those of its frames that the other
value does not imply. Whole sets of frames are dropped or kept where that is possible, but the
frames that are left do not depend on it. All other laws of differences follow from this one and
from the order, which compares frame by frame. They hold of taint, of the frames of one kind and of
the frames at one call position.
-/
namespace TaintFlow

/-- Some frame of the list has the kind and the key of `f`, and is above `f`. -/
def Frame.ImpliedIn (fs : List Frame) (f : Frame) : Prop :=
  ∃ g ∈ fs, g.kind = f.kind ∧ g.key = f.key ∧ f.leq g

namespace Grouped
open Grouping

variable {κ ε : Type} [Grouping ε κ]

/-- What is left of an element when the element that stands under its key is taken away. -/
def remainder (counterpart : Option ε) (e : ε) : Option ε :=
  match counterpart with
  | none => some e
  | some c => if AbstractDomain.leq e c then none else some (Grouping.difference e c)

variable [Ord κ] [DecidableEq κ] [Std.LawfulEqOrd κ] [Std.TransOrd κ] {p : ε → Prop}
variable {g h : Grouped κ ε} {k : κ} {a : ε}

section Remainder

variable (L : KeyLaws p) (hg : g.Filed p)
variable (hkeep : ∀ k e c, g.get? k = some e → h.get? k = some c →
  p (Grouping.difference e c) ∧ groupKey (Grouping.difference e c) = k)
include L hg hkeep

/-- Remainders of elements that keep their keys are not merged with anything. -/
theorem KeyLaws.get?_rebuild_remainder_iff :
    (g.rebuild fun e => remainder (h.get? (groupKey e)) e).get? k = some a ↔
      ∃ e, g.get? k = some e ∧ remainder (h.get? k) e = some a ∧
        AbstractDomain.isBottom a = false := by
  rw [L.get?_rebuild_iff hg]
  · constructor
    · intro hfound
      obtain ⟨e, he, hleft, hbot⟩ := hfound
      rw [(hg k e he).1] at hleft
      exact ⟨e, he, hleft, hbot⟩
    · intro hfound
      obtain ⟨e, he, hleft, hbot⟩ := hfound
      rw [← (hg k e he).1] at hleft
      exact ⟨e, he, hleft, hbot⟩
  · intro k e e' he hleft
    rw [(hg k e he).1] at hleft
    cases hc : h.get? k with
    | none =>
        rw [hc] at hleft
        cases hleft
        exact ⟨(hg k e he).2.2, (hg k e he).1⟩
    | some c =>
        simp only [hc, remainder] at hleft
        split at hleft
        · cases hleft
        · cases hleft
          exact hkeep k e c he hc

/-- A difference leaves the remainders. That an empty set is not looked at makes no difference,
since nothing stands under any of its keys. -/
theorem KeyLaws.get?_difference_iff :
    (g.difference h).get? k = some a ↔ ∃ e, g.get? k = some e ∧
      remainder (h.get? k) e = some a ∧ AbstractDomain.isBottom a = false := by
  cases hempty : h.isEmpty with
  | true =>
      rw [difference, if_pos hempty, isEmpty_iff.1 hempty k]
      constructor
      · intro ha
        exact ⟨a, ha, rfl, (hg k a ha).2.1⟩
      · intro hfound
        obtain ⟨e, he, hleft, -⟩ := hfound
        cases hleft
        exact he
  | false =>
      have hrebuild : g.difference h = g.rebuild fun e => remainder (h.get? (groupKey e)) e := by
        rw [difference, if_neg (Bool.eq_false_iff.1 hempty)]
        rfl
      rw [hrebuild]
      exact L.get?_rebuild_remainder_iff hg hkeep

end Remainder

end Grouped

namespace FrameSet

variable {s t : FrameSet} {kind : Kind} {f : Frame}

theorem mem_toList_iff (hs : s.Valid) : f ∈ s.toList ↔ s.get? f.key = some f := by
  constructor
  · exact (valid_iff.1 hs).get?_groupKey
  · intro hf
    exact Grouped.mem_elements.2 ⟨f.key, hf⟩

theorem impliedIn_iff (ht : t.Valid ∧ t.kind = kind) (hf : f.kind = kind) :
    f.ImpliedIn t.toList ↔ t.frames.Covers f := by
  rw [covers_iff]
  constructor
  · intro himplied
    obtain ⟨g, hg, -, hkey, hle⟩ := himplied
    rw [mem_toList_iff ht.1, hkey] at hg
    exact ⟨g, hg, hle⟩
  · intro hcovered
    obtain ⟨g, hg, hle⟩ := hcovered
    obtain ⟨hkey, -, hkind⟩ := filed_of_kind ht f.key g hg
    exact ⟨g, Grouped.mem_elements.2 ⟨f.key, hg⟩, hkind.trans hf.symm, hkey, hle⟩

section SameKind

variable (hs : s.Valid ∧ s.kind = kind) (ht : t.Valid ∧ t.kind = kind)
include hs ht

/-- A difference of frames is the whole frame, so a frame that is not implied stays as it is. -/
theorem mem_difference : f ∈ (s.difference t).toList ↔ f ∈ s.toList ∧ ¬ f.ImpliedIn t.toList := by
  have hstand (key : FrameKey) : (s.difference t).get? key = some f ↔
      s.get? key = some f ∧ ∀ c, t.get? key = some c → ¬ f.leq c := by
    have hget : (s.difference t).get? key = some f ↔ ∃ e, s.get? key = some e ∧
        Grouped.remainder (t.get? key) e = some f ∧ AbstractDomain.isBottom f = false := by
      apply (frameLaws kind).get?_difference_iff (filed_of_kind hs)
      intro key e c he hc
      exact ⟨(filed_of_kind hs key e he).2.2, (filed_of_kind hs key e he).1⟩
    have hleft (e : Frame) : Grouped.remainder (t.get? key) e = some f ↔
        e = f ∧ ∀ c, t.get? key = some c → ¬ e.leq c := by
      unfold Grouped.remainder
      cases t.get? key with
      | none => simp
      | some c =>
          change (if e.leq c then none else some e) = some f ↔ _
          split <;> simp_all
    rw [hget]
    constructor
    · intro hfound
      obtain ⟨e, he, hremains, -⟩ := hfound
      obtain ⟨rfl, hnot⟩ := (hleft e).1 hremains
      exact ⟨he, hnot⟩
    · intro hboth
      exact ⟨f, hboth.1, (hleft f).2 ⟨rfl, hboth.2⟩, rfl⟩
  have hd : (s.difference t).Valid := valid_difference hs.1
  rw [mem_toList_iff hd, hstand, ← mem_toList_iff hs.1]
  refine and_congr_right fun hf => ?_
  rw [impliedIn_iff ht ((hs.1.2 f hf).trans hs.2), covers_iff]
  simp only [not_exists, not_and]

end SameKind
end FrameSet

namespace Taint

variable {t u : Taint} {f : Frame}

theorem impliedIn_iff (hu : u.Valid) : f.ImpliedIn u.frames ↔ u.Covers f := by
  constructor
  · intro himplied
    obtain ⟨g, hg, hkind, hkey, hle⟩ := himplied
    rw [mem_frames_iff hu, hkind, hkey] at hg
    rw [Covers, hg]
    exact Grouped.below_some.2 hle
  · intro hcovered
    obtain ⟨g, hg, hle⟩ := hcovered f rfl
    obtain ⟨hkind, hkey⟩ := key_of_frame? hu hg
    exact ⟨g, mem_frames_of_frame? hu hg, hkind, hkey, hle⟩

theorem get?_difference (ht : t.Valid) {kind : Kind} {m : FrameSet} :
    (t.difference u).get? kind = some m ↔ ∃ s, t.get? kind = some s ∧
      Grouped.remainder (u.get? kind) s = some m ∧ m.isEmpty = false := by
  apply FrameSet.setLaws.get?_difference_iff (valid_iff.1 ht)
  intro kind s c hs hc
  obtain ⟨hvalid, hkind⟩ := valid_of_get? ht hs
  exact ⟨FrameSet.valid_difference hvalid, hkind⟩

/-- Dropping a whole set, keeping a whole set and comparing frame by frame all leave the frames that
are not implied. -/
theorem mem_remainder (hu : u.Valid) {s : FrameSet} (hs : s.Valid) :
    (∃ m, Grouped.remainder (u.get? s.kind) s = some m ∧ f ∈ m.toList) ↔
      f ∈ s.toList ∧ ¬ u.Covers f := by
  unfold Grouped.remainder
  cases hc : u.get? s.kind with
  | none =>
      have hnone : f ∈ s.toList → ¬ u.Covers f := by
        intro hf
        rw [Covers, hs.2 f hf, frame?, hc]
        exact Grouped.not_below_none
      simp only [Option.some.injEq, exists_eq_left']
      exact (and_iff_left_of_imp hnone).symm
  | some c =>
      have hkind := valid_of_get? hu hc
      have hcovers : f ∈ s.toList → (u.Covers f ↔ f.ImpliedIn c.toList) := by
        intro hf
        rw [FrameSet.impliedIn_iff hkind (hs.2 f hf), covers_iff_of_kind (hs.2 f hf), framesOf, hc]
        rfl
      change (∃ m, (if s.leq c then none else some (s.difference c)) = some m ∧ _) ↔ _
      split
      · rename_i hle
        rw [FrameSet.leq_eq hkind.2.symm] at hle
        have hall : ∀ f ∈ s.toList, u.Covers f := by
          rw [forall_covers_iff hs, framesOf, hc]
          exact hle
        simp only [reduceCtorEq, false_and, exists_false, false_iff, not_and, Classical.not_not]
        exact hall f
      · simp only [Option.some.injEq, exists_eq_left']
        rw [FrameSet.mem_difference ⟨hs, rfl⟩ hkind]
        exact and_congr_right fun hf => not_congr (hcovers hf).symm

theorem mem_frames_difference (ht : t.Valid) (hu : u.Valid) :
    f ∈ (t.difference u).frames ↔ f ∈ t.frames ∧ ¬ f.ImpliedIn u.frames := by
  rw [impliedIn_iff hu, mem_frames, mem_frames]
  constructor
  · intro hfound
    obtain ⟨m, hm, hf⟩ := hfound
    obtain ⟨kind, hget⟩ := Grouped.mem_elements.1 hm
    obtain ⟨s, hs, hleft, -⟩ := (get?_difference ht).1 hget
    obtain ⟨hvalid, rfl⟩ := valid_of_get? ht hs
    obtain ⟨hmem, hnot⟩ := (mem_remainder hu hvalid).1 ⟨m, hleft, hf⟩
    exact ⟨⟨s, Grouped.mem_elements.2 ⟨_, hs⟩, hmem⟩, hnot⟩
  · intro hboth
    obtain ⟨⟨s, hs, hf⟩, hnot⟩ := hboth
    have hvalid := ht.2 s hs
    obtain ⟨m, hleft, hm⟩ := (mem_remainder hu hvalid).2 ⟨hf, hnot⟩
    have hsome : m.isEmpty = false := by
      obtain ⟨key, hkey⟩ := Grouped.mem_elements.1 hm
      rw [← Bool.not_eq_true]
      intro hempty
      cases (Grouped.isEmpty_iff.1 hempty key).symm.trans hkey
    have hstand := (valid_iff.1 ht).get?_groupKey hs
    exact ⟨m, Grouped.mem_elements.2 ⟨s.kind, (get?_difference ht).2 ⟨s, hstand, hleft, hsome⟩⟩,
      hm⟩

end Taint

/-- The order of a domain compares frame by frame, and bottom elements are those without frames. -/
structure OrderedByFrames {β : Type} [AbstractDomain β] (p : β → Prop) (frames : β → List Frame) :
    Prop where
  leq_iff {a b : β} : p a → p b →
    (AbstractDomain.leq a b ↔ ∀ f ∈ frames a, f.ImpliedIn (frames b))
  isBottom_iff {a : β} : p a → (AbstractDomain.isBottom a ↔ ∀ f, f ∉ frames a)

theorem Taint.orderedByFrames : OrderedByFrames Taint.Valid Taint.frames where
  leq_iff {t u} ht hu := by
    refine (leq_iff_covers ht hu).trans ?_
    simp only [impliedIn_iff hu]
  isBottom_iff {t} ht := by
    constructor
    · intro hempty f hf
      obtain ⟨s, hs, -⟩ := mem_frames.1 hf
      obtain ⟨kind, hget⟩ := Grouped.mem_elements.1 hs
      cases (Grouped.isEmpty_iff.1 hempty kind).symm.trans hget
    · exact isEmpty_of_forall_not_mem_frames ht

theorem FrameSet.orderedByFrames (kind : Kind) :
    OrderedByFrames (fun s : FrameSet => s.Valid ∧ s.kind = kind) FrameSet.toList where
  leq_iff {s t} hs ht := by
    change s.leq t ↔ _
    rw [leq_eq (hs.2.trans ht.2.symm), (valid_iff.1 hs.1).leq_iff_covers]
    refine forall_congr' fun f => forall_congr' fun hf => ?_
    exact (impliedIn_iff ht ((hs.1.2 f hf).trans hs.2)).symm
  isBottom_iff {s} hs := by
    constructor
    · intro hempty f hf
      obtain ⟨key, hget⟩ := Grouped.mem_elements.1 hf
      cases (Grouped.isEmpty_iff.1 hempty key).symm.trans hget
    · intro hnone
      refine Grouped.isEmpty_iff.2 fun key => Option.eq_none_iff_forall_ne_some.2 fun f hf => ?_
      exact hnone f (Grouped.mem_elements.2 ⟨key, hf⟩)

/-- `d` has the frames of `a` that `b` does not imply, and no others. -/
def IsDifference {β : Type} (frames : β → List Frame) (a b d : β) : Prop :=
  ∀ f, f ∈ frames d ↔ f ∈ frames a ∧ ¬ f.ImpliedIn (frames b)

namespace IsDifference

variable {β : Type} [AbstractDomain β] {p : β → Prop} {frames : β → List Frame}
variable (V : OrderedByFrames p frames) (L : JoinLaws p) {a b d d' : β}
variable (ha : p a) (hb : p b) (hd : p d) (h : IsDifference frames a b d)
include V L ha hd h

theorem leq_left : AbstractDomain.leq d a := by
  rw [V.leq_iff hd ha]
  intro f hf
  exact (V.leq_iff ha ha).1 (L.leq_refl ha) f ((h f).1 hf).1

omit L ha in
/-- A frame that is left is not implied, so nothing more is taken away a second time. -/
theorem eq_again (L : JoinLaws p) (hd' : p d') (h' : IsDifference frames d b d') : d' = d := by
  apply L.leq_antisymm hd' hd
  · exact h'.leq_left V L hd hd'
  · rw [V.leq_iff hd hd']
    intro f hf
    have hleft : f ∈ frames d' := (h' f).2 ⟨hf, ((h f).1 hf).2⟩
    exact (V.leq_iff hd' hd').1 (L.leq_refl hd') f hleft

include hb

/-- What was taken away is implied by what it was taken away for. -/
theorem join_eq : AbstractDomain.join d b = AbstractDomain.join a b := by
  have hdb := L.join_mem hd hb
  have hab := L.join_mem ha hb
  have hleft : AbstractDomain.leq d (AbstractDomain.join a b) :=
    L.leq_trans hd ha hab (h.leq_left V L ha hd) (L.leq_join_left ha hb)
  apply L.leq_antisymm hdb hab
  · exact L.join_leq hd hb hab hleft (L.leq_join_right ha hb)
  · apply L.join_leq ha hb hdb ?_ (L.leq_join_right hd hb)
    rw [V.leq_iff ha hdb]
    intro f hf
    by_cases himplied : f.ImpliedIn (frames b)
    · obtain ⟨g, hg, hkind, hkey, hle⟩ := himplied
      have habove := (V.leq_iff hb hdb).1 (L.leq_join_right hd hb) g hg
      obtain ⟨c, hc, hkind', hkey', hle'⟩ := habove
      exact ⟨c, hc, hkind'.trans hkind, hkey'.trans hkey, Frame.leq_trans hle hle'⟩
    · have hremains : f ∈ frames d := (h f).2 ⟨hf, himplied⟩
      exact (V.leq_iff hd hdb).1 (L.leq_join_left hd hb) f hremains

omit L in
theorem isBottom_iff_leq : AbstractDomain.isBottom d ↔ AbstractDomain.leq a b := by
  rw [V.isBottom_iff hd, V.leq_iff ha hb]
  constructor
  · intro hnone f hf
    apply Classical.byContradiction
    intro hnot
    exact hnone f ((h f).2 ⟨hf, hnot⟩)
  · intro hall f hf
    obtain ⟨hmem, hnot⟩ := (h f).1 hf
    exact hnot (hall f hmem)

end IsDifference

/-- The operations of a join-semilattice of frames, with differences; they may fault. -/
structure DifferenceOperations (α : Type) extends JoinOperations α where
  isBottom : α → Bool
  frames : α → List Frame
  difference : α → α → Except Fault α

namespace DifferenceOperations

variable {α β : Type}

/-- Differences of elements that satisfy `p` do not fault and have exactly the frames that are not
implied. So they lie below the element from which they are taken, lose nothing when they are joined
with what was taken away, lose nothing more when it is taken away again, and are bottom exactly for
an element that is below the other one. -/
structure IsExact (o : DifferenceOperations α) (p : α → Prop) : Prop where
  isDifference {a b : α} : p a → p b →
    ∃ d, o.difference a b = .ok d ∧ p d ∧ IsDifference o.frames a b d
  difference_leq {a b : α} : p a → p b → (do o.leq (← o.difference a b) a) = .ok true
  difference_join {a b : α} : p a → p b →
    (do o.equals (← o.join (← o.difference a b) b) (← o.join a b)) = .ok true
  difference_difference {a b : α} : p a → p b →
    (do let d ← o.difference a b; o.equals (← o.difference d b) d) = .ok true
  isBottom_difference_iff {a b : α} : p a → p b →
    ∃ d, o.difference a b = .ok d ∧ (o.isBottom d ↔ o.leq a b = .ok true)

variable [AbstractDomain β] {o : DifferenceOperations α} {p : α → Prop} {q : β → Prop} {f : α → β}
variable {frames : β → List Frame}

/-- Operations that follow those of an ordered domain are exact as soon as their differences have the
right frames. -/
theorem isExact (H : o.Follows p f) (L : JoinLaws q) (V : OrderedByFrames q frames)
    (mem : ∀ {a}, p a → q (f a)) (hframes : ∀ a, o.frames a = frames (f a))
    (hbottom : ∀ a, o.isBottom a = AbstractDomain.isBottom (f a))
    (hdifference : ∀ {a b}, p a → p b →
      ∃ d, o.difference a b = .ok d ∧ p d ∧ IsDifference frames (f a) (f b) (f d)) :
    o.IsExact p where
  isDifference {a b} ha hb := by
    obtain ⟨d, heq, hd, h⟩ := hdifference ha hb
    refine ⟨d, heq, hd, fun x => ?_⟩
    rw [hframes, hframes, hframes]
    exact h x
  difference_leq {a b} ha hb := by
    obtain ⟨d, heq, hd, h⟩ := hdifference ha hb
    rw [heq]
    exact (H.leq_iff hd ha).2 (h.leq_left V L (mem ha) (mem hd))
  difference_join {a b} ha hb := by
    obtain ⟨d, heq, hd, h⟩ := hdifference ha hb
    obtain ⟨j, hj, hpj, himage⟩ := H.join_eq hd hb
    obtain ⟨j', hj', hpj', himage'⟩ := H.join_eq ha hb
    have hequal : o.equals j j' = .ok true := by
      rw [H.equals_iff L mem hpj hpj', himage, himage']
      exact h.join_eq V L (mem ha) (mem hb) (mem hd)
    simpa only [heq, hj, hj', bind, Except.bind] using hequal
  difference_difference {a b} ha hb := by
    obtain ⟨d, heq, hd, h⟩ := hdifference ha hb
    obtain ⟨d', heq', hd', h'⟩ := hdifference hd hb
    have hequal : o.equals d' d = .ok true := by
      rw [H.equals_iff L mem hd' hd]
      exact h.eq_again V (mem hd) L (mem hd') h'
    simpa only [heq, heq', bind, Except.bind] using hequal
  isBottom_difference_iff {a b} ha hb := by
    obtain ⟨d, heq, hd, h⟩ := hdifference ha hb
    refine ⟨d, heq, ?_⟩
    rw [hbottom, H.leq_iff ha hb]
    exact h.isBottom_iff_leq V (mem ha) (mem hb) (mem hd)

end DifferenceOperations

def Taint.differenceOperations : DifferenceOperations Taint where
  toJoinOperations := joinOperations
  isBottom := isEmpty
  frames := frames
  difference t u := .ok (t.difference u)

/-- The operations of frames of one kind; none of them faults. -/
def FrameSet.differenceOperations (kind : Kind) : DifferenceOperations FrameSet where
  bottom := empty kind
  leq s t := .ok (s.leq t)
  equals s t := .ok (s.equals t)
  join s t := .ok (s.join t)
  widen s t := .ok (s.widen t)
  isBottom := isEmpty
  frames := toList
  difference s t := .ok (s.difference t)

theorem FrameSet.differenceOperations_follows (kind : Kind) :
    (differenceOperations kind).Follows (fun s => s.Valid ∧ s.kind = kind) id where
  bottom_mem := ⟨valid_empty kind, rfl⟩
  isBottom_bottom := rfl
  leq_eq _ _ := rfl
  equals_eq _ _ := rfl
  join_eq hs ht := ⟨_, rfl, (setLaws kind).join_mem hs ht, rfl⟩
  widen_eq {s t} hs ht := by
    refine ⟨_, rfl, ?_, rfl⟩
    rw [widen_eq_join hs ht]
    exact join_mem hs ht

def CallPositionFrames.differenceOperations : DifferenceOperations CallPositionFrames where
  toJoinOperations := joinOperations
  isBottom := isEmpty
  frames := frames
  difference := difference

/-- What is left of frames at a position is at that position. -/
theorem CallPositionFrames.At.difference {position : Option Position} {c d : CallPositionFrames}
    (hc : c.At position) (hd : d.At position) : ∃ e, c.difference d = .ok e ∧ e.At position ∧
      e.toTaint = c.toTaint.difference d.toTaint := by
  have hvalid : (c.toTaint.difference d.toTaint).Valid := Taint.valid_difference hc.1
  refine ⟨_, hc.combined_eq hd _, ⟨hvalid, ?_⟩, rfl⟩
  refine hc.2.imp_left fun hempty => ?_
  have hleq : c.toTaint.leq d.toTaint := Taint.joinLaws.leq_of_isBottom hc.1 hd.1 hempty
  have hdifference : IsDifference Taint.frames c.toTaint d.toTaint
      (c.toTaint.difference d.toTaint) := fun f => Taint.mem_frames_difference hc.1 hd.1
  exact (hdifference.isBottom_iff_leq Taint.orderedByFrames hc.1 hd.1 hvalid).2 hleq

/-- Differences of taint, of frames of one kind and of frames at one call position have exactly the
frames that are not implied. Frames that may be combined are at one position as long as there are
any, whatever position is recorded where there are none. -/
theorem difference_isExact : Taint.differenceOperations.IsExact Taint.Valid ∧
    (∀ kind, (FrameSet.differenceOperations kind).IsExact fun s => s.Valid ∧ s.kind = kind) ∧
    ∀ position, CallPositionFrames.differenceOperations.IsExact
      (CallPositionFrames.At position) := by
  refine ⟨?_, fun kind => ?_, fun position => ?_⟩
  · apply DifferenceOperations.isExact Taint.joinOperations_follows Taint.joinLaws
      Taint.orderedByFrames id (fun _ => rfl) fun _ => rfl
    intro t u ht hu
    exact ⟨_, rfl, Taint.valid_difference ht, fun _ => Taint.mem_frames_difference ht hu⟩
  · apply DifferenceOperations.isExact (FrameSet.differenceOperations_follows kind)
      (FrameSet.setLaws kind) (FrameSet.orderedByFrames kind) id (fun _ => rfl) fun _ => rfl
    intro s t hs ht
    exact ⟨_, rfl, ⟨FrameSet.valid_difference hs.1, hs.2⟩, fun _ => FrameSet.mem_difference hs ht⟩
  · apply DifferenceOperations.isExact (CallPositionFrames.joinOperations_follows position)
      Taint.joinLaws Taint.orderedByFrames (fun h => h.1) (fun _ => rfl) fun _ => rfl
    intro c d hc hd
    obtain ⟨e, heq, he, htaint⟩ := hc.difference hd
    refine ⟨e, heq, he, fun f => ?_⟩
    rw [htaint]
    exact Taint.mem_frames_difference hc.1 hd.1

end TaintFlow
