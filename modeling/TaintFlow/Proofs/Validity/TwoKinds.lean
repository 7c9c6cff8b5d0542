import TaintFlow.Proofs.Validity.Operations

/-!
# Frame sets of two kinds

A join and a widening of frame sets do not look at the kinds, while an addition refuses a frame of
another kind, and a comparison and a meet find nothing in common. So frames of another kind can come
into a set. They do exactly when a set that has frames is put together with one of another kind, and
the key of some frame on the right is free on the left.
-/
namespace TaintFlow.FrameSet

variable {s t : FrameSet}

/-- Whether frames of another kind come into the set when `t` is put to it. A frame whose key is taken
does not: it is merged into the frame that stands there, which keeps its kind. -/
def TakesForeign (s t : FrameSet) : Prop :=
  s.isEmpty = false ∧ s.kind ≠ t.kind ∧ ∃ f ∈ t.toList, s.get? f.key = none

instance (s t : FrameSet) : Decidable (s.TakesForeign t) :=
  inferInstanceAs (Decidable (_ ∧ _ ∧ ∃ f ∈ t.toList, s.get? f.key = none))

theorem not_takesForeign (hkind : s.isEmpty ∨ t.isEmpty ∨ s.kind = t.kind) :
    ¬ s.TakesForeign t := by
  intro htakes
  obtain ⟨hs, hne, f, hf, -⟩ := htakes
  rcases hkind with hempty | hempty | hsame
  · cases hs.symm.trans hempty
  · obtain ⟨key, hkey⟩ := Grouped.mem_elements.1 hf
    cases (Grouped.isEmpty_iff.1 hempty key).symm.trans hkey
  · exact hne hsame

theorem valid_join (hs : s.Valid) (ht : t.Valid)
    (hkind : s.isEmpty ∨ t.isEmpty ∨ s.kind = t.kind) : (s.join t).Valid := by
  rcases hkind with hempty | hempty | hsame
  · unfold join
    split
    · exact hs
    · exact ht
  · rw [join, if_pos hempty]
    exact hs
  · exact (join_mem ⟨hs, rfl⟩ ⟨ht, hsame.symm⟩).1

theorem valid_widen (hs : s.Valid) (ht : t.Valid)
    (hkind : s.isEmpty ∨ t.isEmpty ∨ s.kind = t.kind) : (s.widen t).Valid := by
  rcases hkind with hempty | hempty | hsame
  · rw [widen, if_pos hempty]
    exact ht
  · unfold widen
    split
    · exact ht
    · exact hs
  · rw [widen_eq_join ⟨hs, rfl⟩ ⟨ht, hsame.symm⟩]
    exact (join_mem ⟨hs, rfl⟩ ⟨ht, hsame.symm⟩).1

theorem get?_frames_join (ht : t.Valid) (key : FrameKey) :
    (s.frames.join t.frames).get? key = (s.get? key).merge Frame.join (t.get? key) :=
  ht.1.get?_join key

/-- A frame that is merged into another one takes over its kind, and their key stays as it is. -/
theorem valid_join_of_keys_taken (hs : s.Valid) (ht : t.Valid)
    (htaken : ∀ f ∈ t.toList, s.get? f.key ≠ none) : Valid ⟨s.kind, s.frames.join t.frames⟩ := by
  refine valid_iff.2 fun key g hg => ?_
  rw [get?_frames_join ht] at hg
  cases hleft : s.get? key with
  | none =>
      rw [hleft, Option.merge_none_left] at hg
      have hkey : g.key = key := (ht.1 key g hg).1
      exact (htaken g (Grouped.mem_elements.2 ⟨key, hg⟩) (hkey.symm ▸ hleft)).elim
  | some f =>
      obtain ⟨hkey, -, hkind⟩ := valid_iff.1 hs key f hleft
      rw [hleft] at hg
      cases hright : t.get? key with
      | none =>
          rw [hright] at hg
          cases hg
          exact ⟨hkey, rfl, hkind⟩
      | some f' =>
          rw [hright] at hg
          cases hg
          have hkey' : f'.key = key := (ht.1 key f' hright).1
          exact ⟨(Frame.key_join (hkey'.trans hkey.symm)).trans hkey, rfl, hkind⟩

/-- A frame whose key is free comes into the set as it is. -/
theorem not_valid_join_of_key_free (ht : t.Valid) (hne : s.kind ≠ t.kind) {f : Frame}
    (hf : f ∈ t.toList) (hfree : s.get? f.key = none) :
    ¬ Valid ⟨s.kind, s.frames.join t.frames⟩ := by
  intro hvalid
  have hcomes : (s.frames.join t.frames).get? f.key = some f := by
    rw [get?_frames_join ht, hfree, Option.merge_none_left]
    exact (valid_iff.1 ht).get?_groupKey hf
  have hkind : f.kind = s.kind := hvalid.2 f (Grouped.mem_elements.2 ⟨f.key, hcomes⟩)
  exact hne (hkind.symm.trans (ht.2 f hf))

theorem valid_join_iff (hs : s.Valid) (ht : t.Valid) : (s.join t).Valid ↔ ¬ s.TakesForeign t := by
  by_cases hkind : s.isEmpty ∨ t.isEmpty ∨ s.kind = t.kind
  · exact iff_of_true (valid_join hs ht hkind) (not_takesForeign hkind)
  simp only [not_or, Bool.not_eq_true] at hkind
  obtain ⟨hsome, hsome', hne⟩ := hkind
  have hjoin : s.join t = ⟨s.kind, s.frames.join t.frames⟩ := by
    simp only [join, hsome, hsome', Bool.false_eq_true, if_false]
  rw [hjoin]
  constructor
  · intro hvalid htakes
    obtain ⟨-, -, f, hf, hfree⟩ := htakes
    exact not_valid_join_of_key_free ht hne hf hfree hvalid
  · intro hkept
    exact valid_join_of_keys_taken hs ht fun f hf hfree => hkept ⟨hsome, hne, f, hf, hfree⟩

/-- Frames widen as they join, whatever their kinds. -/
theorem frames_widen_eq_join (ht : t.Valid) : s.frames.widen t.frames = s.frames.join t.frames :=
  Grouped.get?_ext fun key => (ht.1.get?_widen key).trans (ht.1.get?_join key).symm

theorem valid_widen_iff (hs : s.Valid) (ht : t.Valid) :
    (s.widen t).Valid ↔ ¬ s.TakesForeign t := by
  by_cases hkind : s.isEmpty ∨ t.isEmpty ∨ s.kind = t.kind
  · exact iff_of_true (valid_widen hs ht hkind) (not_takesForeign hkind)
  simp only [not_or, Bool.not_eq_true] at hkind
  have hwiden : s.widen t = s.join t := by
    simp only [widen, join, hkind, Bool.false_eq_true, if_false, frames_widen_eq_join ht]
  rw [hwiden]
  exact valid_join_iff hs ht

end TaintFlow.FrameSet
