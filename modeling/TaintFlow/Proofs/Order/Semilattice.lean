import TaintFlow.Proofs.Order.Taint

/-!
# Join-semilattices of operations that may fault

Frames at two call positions have neither a join nor an order between them, so the laws of a domain
are stated here for operations that may fault. A law says that its operations give results, and
then what these results are. The elements it speaks of are those of a carrier: on the frames at one
call position, and on taint as a whole, no operation faults.
-/
namespace TaintFlow

structure JoinOperations (α : Type) where
  bottom : α
  leq : α → α → Except Fault Bool
  equals : α → α → Except Fault Bool
  join : α → α → Except Fault α
  widen : α → α → Except Fault α

namespace JoinOperations

variable {α β : Type}

/-- The elements that satisfy `p` are closed under the operations, which do not fault on them, and
are a join-semilattice up to `equals`. -/
structure IsSemilattice (o : JoinOperations α) (p : α → Prop) : Prop where
  bottom_mem : p o.bottom
  leq_answers {a b : α} : p a → p b → ∃ answer, o.leq a b = .ok answer
  equals_answers {a b : α} : p a → p b → ∃ answer, o.equals a b = .ok answer
  leq_refl {a : α} : p a → o.leq a a = .ok true
  leq_trans {a b c : α} : p a → p b → p c →
    o.leq a b = .ok true → o.leq b c = .ok true → o.leq a c = .ok true
  leq_antisymm_iff {a b : α} : p a → p b →
    (o.leq a b = .ok true ∧ o.leq b a = .ok true ↔ o.equals a b = .ok true)
  bottom_leq {a : α} : p a → o.leq o.bottom a = .ok true
  join_isLub {a b : α} : p a → p b → ∃ j, o.join a b = .ok j ∧ p j ∧
    o.leq a j = .ok true ∧ o.leq b j = .ok true ∧
    ∀ c, p c → o.leq a c = .ok true → o.leq b c = .ok true → o.leq j c = .ok true
  join_comm {a b : α} : p a → p b →
    (do o.equals (← o.join a b) (← o.join b a)) = .ok true
  join_assoc {a b c : α} : p a → p b → p c →
    (do o.equals (← o.join (← o.join a b) c) (← o.join a (← o.join b c))) = .ok true
  join_idem {a : α} : p a → (do o.equals (← o.join a a) a) = .ok true
  join_bottom {a : α} : p a → (do o.equals (← o.join a o.bottom) a) = .ok true
  bottom_join {a : α} : p a → (do o.equals (← o.join o.bottom a) a) = .ok true
  widen_equals_join {a b : α} : p a → p b →
    (do o.equals (← o.widen a b) (← o.join a b)) = .ok true

/-- On the elements that satisfy `p`, the operations answer as those of the domain `β` do on the
images under `f`, and give elements of the carrier. -/
structure Follows [AbstractDomain β] (o : JoinOperations α) (p : α → Prop) (f : α → β) : Prop where
  bottom_mem : p o.bottom
  isBottom_bottom : AbstractDomain.isBottom (f o.bottom)
  leq_eq {a b : α} : p a → p b → o.leq a b = .ok (AbstractDomain.leq (f a) (f b))
  equals_eq {a b : α} : p a → p b → o.equals a b = .ok (AbstractDomain.equals (f a) (f b))
  join_eq {a b : α} : p a → p b →
    ∃ j, o.join a b = .ok j ∧ p j ∧ f j = AbstractDomain.join (f a) (f b)
  widen_eq {a b : α} : p a → p b →
    ∃ w, o.widen a b = .ok w ∧ p w ∧ f w = AbstractDomain.widen (f a) (f b)

namespace Follows

variable [AbstractDomain β] {o : JoinOperations α} {p : α → Prop} {q : β → Prop} {f : α → β}
variable (H : o.Follows p f) (L : JoinLaws q) (mem : ∀ {a}, p a → q (f a)) {a b : α}
include H

theorem leq_iff (ha : p a) (hb : p b) :
    o.leq a b = .ok true ↔ AbstractDomain.leq (f a) (f b) := by
  rw [H.leq_eq ha hb, Except.ok.injEq]

include L mem

theorem equals_iff (ha : p a) (hb : p b) : o.equals a b = .ok true ↔ f a = f b := by
  rw [H.equals_eq ha hb, Except.ok.injEq, L.equals_iff (mem ha) (mem hb)]

/-- Operations that follow those of a domain with the laws make up a join-semilattice. -/
theorem isSemilattice : o.IsSemilattice p where
  bottom_mem := H.bottom_mem
  leq_answers ha hb := ⟨_, H.leq_eq ha hb⟩
  equals_answers ha hb := ⟨_, H.equals_eq ha hb⟩
  leq_refl ha := (H.leq_iff ha ha).2 (L.leq_refl (mem ha))
  leq_trans ha hb hc hab hbc := by
    rw [H.leq_iff ha hb] at hab
    rw [H.leq_iff hb hc] at hbc
    rw [H.leq_iff ha hc]
    exact L.leq_trans (mem ha) (mem hb) (mem hc) hab hbc
  leq_antisymm_iff ha hb := by
    rw [H.leq_iff ha hb, H.leq_iff hb ha, H.equals_eq ha hb, Except.ok.injEq]
    exact (L.equals_iff_leq (mem ha) (mem hb)).symm
  bottom_leq ha := by
    rw [H.leq_iff H.bottom_mem ha]
    exact L.leq_of_isBottom (mem H.bottom_mem) (mem ha) H.isBottom_bottom
  join_isLub {a b} ha hb := by
    obtain ⟨j, hjoin, hj, himage⟩ := H.join_eq ha hb
    refine ⟨j, hjoin, hj, ?_, ?_, ?_⟩
    · rw [H.leq_iff ha hj, himage]
      exact L.leq_join_left (mem ha) (mem hb)
    · rw [H.leq_iff hb hj, himage]
      exact L.leq_join_right (mem ha) (mem hb)
    · intro c hc hac hbc
      rw [H.leq_iff ha hc] at hac
      rw [H.leq_iff hb hc] at hbc
      rw [H.leq_iff hj hc, himage]
      exact L.join_leq (mem ha) (mem hb) (mem hc) hac hbc
  join_comm ha hb := by
    obtain ⟨j, hjoin, hj, himage⟩ := H.join_eq ha hb
    obtain ⟨j', hjoin', hj', himage'⟩ := H.join_eq hb ha
    rw [hjoin, hjoin']
    apply (H.equals_iff L mem hj hj').2
    rw [himage, himage']
    exact L.join_comm (mem ha) (mem hb)
  join_assoc ha hb hc := by
    obtain ⟨ab, hab, mab, iab⟩ := H.join_eq ha hb
    obtain ⟨bc, hbc, mbc, ibc⟩ := H.join_eq hb hc
    obtain ⟨left, hleft, mleft, ileft⟩ := H.join_eq mab hc
    obtain ⟨right, hright, mright, iright⟩ := H.join_eq ha mbc
    have heq : o.equals left right = .ok true := by
      rw [H.equals_iff L mem mleft mright, ileft, iright, iab, ibc]
      exact L.join_assoc (mem ha) (mem hb) (mem hc)
    simpa only [hab, hbc, hleft, hright, bind, Except.bind] using heq
  join_idem ha := by
    obtain ⟨j, hjoin, hj, himage⟩ := H.join_eq ha ha
    rw [hjoin]
    apply (H.equals_iff L mem hj ha).2
    rw [himage]
    exact L.join_idem (mem ha)
  join_bottom ha := by
    obtain ⟨j, hjoin, hj, himage⟩ := H.join_eq ha H.bottom_mem
    have hle := L.leq_of_isBottom (mem H.bottom_mem) (mem ha) H.isBottom_bottom
    rw [hjoin]
    apply (H.equals_iff L mem hj ha).2
    rw [himage]
    exact L.join_eq_left (mem ha) (mem H.bottom_mem) hle
  bottom_join ha := by
    obtain ⟨j, hjoin, hj, himage⟩ := H.join_eq H.bottom_mem ha
    have hle := L.leq_of_isBottom (mem H.bottom_mem) (mem ha) H.isBottom_bottom
    rw [hjoin]
    apply (H.equals_iff L mem hj ha).2
    rw [himage]
    exact L.join_eq_right (mem H.bottom_mem) (mem ha) hle
  widen_equals_join ha hb := by
    obtain ⟨w, hwiden, hw, iw⟩ := H.widen_eq ha hb
    obtain ⟨j, hjoin, hj, himage⟩ := H.join_eq ha hb
    rw [hwiden, hjoin]
    apply (H.equals_iff L mem hw hj).2
    rw [iw, himage]
    exact L.widen_eq (mem ha) (mem hb)

end Follows
end JoinOperations

/-- The operations of taint; none of them faults. -/
def Taint.joinOperations : JoinOperations Taint where
  bottom := ∅
  leq t u := .ok (t.leq u)
  equals t u := .ok (t.equals u)
  join t u := .ok (t.join u)
  widen t u := .ok (t.widen u)

theorem Taint.joinOperations_follows : Taint.joinOperations.Follows Taint.Valid id where
  bottom_mem := valid_iff.2 Grouped.Filed.empty
  isBottom_bottom := rfl
  leq_eq _ _ := rfl
  equals_eq _ _ := rfl
  join_eq ht hu := ⟨_, rfl, joinLaws.join_mem ht hu, rfl⟩
  widen_eq {t u} ht hu := by
    refine ⟨_, rfl, ?_, rfl⟩
    have heq : t.widen u = t.join u := joinLaws.widen_eq ht hu
    rw [heq]
    exact joinLaws.join_mem ht hu

namespace CallPositionFrames

/-- The operations of frames at a call position; they fault on frames at another position. -/
def joinOperations : JoinOperations CallPositionFrames := ⟨∅, leq, equals, join, widen⟩

/-- The frames are valid, and if there are any they are at the position. -/
def At (position : Option Position) (c : CallPositionFrames) : Prop :=
  c.toTaint.Valid ∧ (c.isEmpty ∨ c.position = position)

namespace At

variable {position : Option Position} {c d : CallPositionFrames}

theorem combined_eq {α : Type} (hc : c.At position) (hd : d.At position) (result : α) :
    combined c d result = .ok result := by
  have hcompatible : compatible c d := by
    unfold compatible
    rcases hc.2 with hempty | hc
    · rw [hempty, Bool.true_or, Bool.true_or]
    rcases hd.2 with hempty | hd
    · rw [hempty, Bool.or_true, Bool.true_or]
    rw [hc, hd, decide_eq_true rfl, Bool.or_true]
  rw [combined, if_pos hcompatible]

/-- Whatever frames are put together at a position, the adopted position is that one. -/
theorem adopt (hc : c.At position) (hd : d.At position) {sets : Grouped Kind FrameSet}
    (hvalid : Taint.Valid ⟨sets⟩) (hempty : sets.isEmpty = (c.isEmpty && d.isEmpty)) :
    At position ⟨adoptedPosition c d, sets⟩ := by
  refine ⟨hvalid, ?_⟩
  change sets.isEmpty ∨ (if c.isEmpty then d.position else c.position) = position
  rw [hempty]
  cases hce : c.isEmpty with
  | true => exact hd.2
  | false =>
      right
      exact hc.2.resolve_left (ne_true_of_eq_false hce)

end At

theorem joinOperations_follows (position : Option Position) :
    joinOperations.Follows (At position) toTaint where
  bottom_mem := ⟨Taint.valid_iff.2 Grouped.Filed.empty, .inl rfl⟩
  isBottom_bottom := rfl
  leq_eq hc hd := hc.combined_eq hd _
  equals_eq hc hd := hc.combined_eq hd _
  join_eq hc hd := by
    refine ⟨_, hc.combined_eq hd _, ?_, rfl⟩
    exact hc.adopt hd (Taint.joinLaws.join_mem hc.1 hd.1) (Taint.joinLaws.isBottom_join hc.1 hd.1)
  widen_eq {c d} hc hd := by
    have heq : c.sets.widen d.sets = c.sets.join d.sets :=
      congrArg Taint.sets (Taint.joinLaws.widen_eq hc.1 hd.1)
    refine ⟨_, hc.combined_eq hd _, ?_, rfl⟩
    rw [heq]
    exact hc.adopt hd (Taint.joinLaws.join_mem hc.1 hd.1) (Taint.joinLaws.isBottom_join hc.1 hd.1)

end CallPositionFrames

/-- Valid taint is a join-semilattice whose widening is the join, and so are the valid frames at any
one call position. -/
theorem taint_isSemilattice :
    Taint.joinOperations.IsSemilattice Taint.Valid ∧
      ∀ position, CallPositionFrames.joinOperations.IsSemilattice (CallPositionFrames.At position) :=
  ⟨Taint.joinOperations_follows.isSemilattice Taint.joinLaws id, fun position =>
    (CallPositionFrames.joinOperations_follows position).isSemilattice Taint.joinLaws fun h => h.1⟩

end TaintFlow
