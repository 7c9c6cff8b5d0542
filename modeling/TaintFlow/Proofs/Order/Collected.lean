import TaintFlow.Proofs.Order.Frames

/-!
# Taint that collects frames

Collecting frames gives the least taint that covers them all, so neither their order nor the way in
which they are put together matters. Under each kind and key there stands the join of the frames
that have that kind and that key.
-/
namespace TaintFlow.Taint

variable {t u : Taint} {f : Frame}

theorem addFrames_leq_iff (ht : t.Valid) {s : FrameSet} (hs : s.Valid) (hu : u.Valid) :
    (t.addFrames s).leq u ↔ t.leq u ∧ ∀ f ∈ s.toList, u.Covers f :=
  (FrameSet.setLaws.add_leq_iff (valid_iff.1 ht) hs (valid_iff.1 hu)).trans
    (and_congr Iff.rfl (covers_set_iff hu hs))

theorem add_leq_iff (ht : t.Valid) (hu : u.Valid) (f : Frame) :
    (t.add f).leq u ↔ t.leq u ∧ u.Covers f := by
  refine (addFrames_leq_iff ht (FrameSet.valid_singleton f) hu).trans ?_
  rw [show (FrameSet.singleton f).toList = [f] from rfl]
  simp

theorem foldl_add_leq_iff (ht : t.Valid) (hu : u.Valid) (fs : List Frame) :
    (fs.foldl add t).leq u ↔ t.leq u ∧ ∀ f ∈ fs, u.Covers f := by
  induction fs generalizing t with
  | nil => simp
  | cons f fs ih =>
      rw [List.foldl_cons, ih (valid_add ht f), add_leq_iff ht hu, List.forall_mem_cons, and_assoc]

/-- Collected frames are the least taint that covers them. -/
theorem ofList_leq_iff (hu : u.Valid) (fs : List Frame) :
    (ofList fs).leq u ↔ ∀ f ∈ fs, u.Covers f := by
  have hempty : (∅ : Taint).leq u := rfl
  exact (foldl_add_leq_iff valid_empty hu fs).trans (and_iff_right hempty)

/-- Neither the order of the frames nor the number of times they are collected matters. -/
theorem ofList_eq_of_mem {fs gs : List Frame} (h : ∀ f, f ∈ fs ↔ f ∈ gs) :
    ofList fs = ofList gs := by
  refine joinLaws.eq_of_forall_leq_iff (valid_ofList fs) (valid_ofList gs) fun u hu => ?_
  refine (ofList_leq_iff hu fs).trans (Iff.trans ?_ (ofList_leq_iff hu gs).symm)
  exact forall_congr' fun f => by rw [h]

theorem ofList_eq_of_perm {fs gs : List Frame} (h : fs.Perm gs) : ofList fs = ofList gs :=
  ofList_eq_of_mem fun _ => h.mem_iff

theorem ofList_frames (ht : t.Valid) : ofList t.frames = t := by
  refine joinLaws.eq_of_forall_leq_iff (valid_ofList t.frames) ht fun u hu => ?_
  exact (ofList_leq_iff hu t.frames).trans (leq_iff_covers ht hu).symm

theorem ofList_append (fs gs : List Frame) : ofList (fs ++ gs) = (ofList fs).join (ofList gs) := by
  have hjoin := joinLaws.join_mem (valid_ofList fs) (valid_ofList gs)
  refine joinLaws.eq_of_forall_leq_iff (valid_ofList (fs ++ gs)) hjoin fun u hu => ?_
  refine Iff.trans ?_ (joinLaws.join_leq_iff (valid_ofList fs) (valid_ofList gs) hu).symm
  have hfs := ofList_leq_iff hu fs
  have hgs := ofList_leq_iff hu gs
  refine (ofList_leq_iff hu (fs ++ gs)).trans ?_
  rw [List.forall_mem_append]
  exact and_congr hfs.symm hgs.symm

theorem add_eq_join (ht : t.Valid) (f : Frame) : t.add f = t.join (ofList [f]) := by
  have hf := valid_ofList [f]
  refine joinLaws.eq_of_forall_leq_iff (valid_add ht f) (joinLaws.join_mem ht hf) fun u hu => ?_
  refine Iff.trans ?_ (joinLaws.join_leq_iff ht hf hu).symm
  refine (add_leq_iff ht hu f).trans (and_congr Iff.rfl ?_)
  refine Iff.trans ?_ (ofList_leq_iff hu [f]).symm
  simp

/-- Whether the frame has the kind and the key. -/
def StandsAt (kind : Kind) (key : FrameKey) (f : Frame) : Prop := f.kind = kind ∧ f.key = key

instance (kind : Kind) (key : FrameKey) : DecidablePred (StandsAt kind key) := fun f =>
  inferInstanceAs (Decidable (f.kind = kind ∧ f.key = key))

theorem frame?_ofList_singleton (f : Frame) (kind : Kind) (key : FrameKey) :
    (ofList [f]).frame? kind key = if StandsAt kind key f then some f else none := by
  have hframes : (ofList [f]).frames = [f] := rfl
  split
  · rename_i hstands
    obtain ⟨rfl, rfl⟩ := hstands
    exact (mem_frames_iff (valid_ofList [f])).1 (by simp [hframes])
  · rename_i hstands
    refine Option.eq_none_iff_forall_ne_some.2 fun g hg => hstands ?_
    have hmem := mem_frames_of_frame? (valid_ofList [f]) hg
    rw [hframes, List.mem_singleton] at hmem
    exact hmem ▸ key_of_frame? (valid_ofList [f]) hg

/-- Under a kind and a key there stand the collected frames that have them, joined. -/
theorem frame?_ofList (fs : List Frame) (kind : Kind) (key : FrameKey) :
    (ofList fs).frame? kind key = (fs.filter (StandsAt kind key)).foldl Grouped.gather none := by
  have hfold : ∀ t : Taint, t.Valid → (fs.foldl add t).frame? kind key =
      (fs.filter (StandsAt kind key)).foldl Grouped.gather (t.frame? kind key) := by
    induction fs with
    | nil => exact fun _ _ => rfl
    | cons f fs ih =>
      intro t ht
      have hadd : (t.add f).frame? kind key = if StandsAt kind key f then
          Grouped.gather (t.frame? kind key) f else t.frame? kind key := by
        rw [add_eq_join ht, frame?_join ht (valid_ofList [f]), frame?_ofList_singleton]
        split
        · cases t.frame? kind key <;> rfl
        · cases t.frame? kind key <;> rfl
      rw [List.foldl_cons, ih _ (valid_add ht f), hadd, List.filter_cons]
      by_cases hstands : StandsAt kind key f
      · simp [hstands]
      · simp [hstands]
  exact hfold ∅ valid_empty

end TaintFlow.Taint
