import TaintFlow.Proofs.Feature.WellFormed
import TaintFlow.Proofs.Order.Regrouping
import TaintFlow.Proofs.Transform.Expansion

/-!
# Frames at new positions

The position of a call is part of the key of a frame, so frames that were apart may fall together
when their positions change. Two transformations change them. When leaf frames start to flow at a
position, all other frames are dropped, and leaf frames that differed in their positions alone are
merged; each of them has its features folded into the inferred ones first, and a later start folds
nothing more, so only the last position counts. When frames that came through a call are moved, leaf
frames stay as they are.
-/
namespace TaintFlow
open MayAlways (joinAll)

namespace Frame

/-- What tells leaf frames of one position apart. -/
structure LeafPlace where
  kind : Kind
  port : AccessPath
  fieldCallee : Option Field
  isCrtex : Bool
deriving DecidableEq

def leafPlace (f : Frame) : LeafPlace := ⟨f.kind, f.port, f.fieldCallee, f.isCrtex⟩

/-- The key of a leaf frame of this place that flows at the position. -/
def LeafPlace.keyAt (position : Position) (place : LeafPlace) : FrameKey :=
  ⟨place.port, none, place.fieldCallee, some position, place.isCrtex⟩

/-- The frame `g` is what the leaf frames `fs` become together when they start to flow at the
position. -/
structure IsStart (position : Position) (fs : List Frame) (g : Frame) : Prop where
  isLeaf : g.isLeaf
  callPosition : g.callPosition = some position
  distance : g.distance = 0
  inferred : g.inferred = joinAll (fs.map features)
  locallyInferred : g.locallyInferred = .bottom
  userFeatures : g.userFeatures = ∅
  mem_origins (o : Signature) : o ∈ g.origins ↔ ∃ f ∈ fs, o ∈ f.origins
  mem_fieldOrigins (o : Field) : o ∈ g.fieldOrigins ↔ ∃ f ∈ fs, o ∈ f.fieldOrigins
  mem_viaTypePorts (r : Root) : r ∈ g.viaTypePorts ↔ ∃ f ∈ fs, r ∈ f.viaTypePorts
  mem_viaValuePorts (r : Root) : r ∈ g.viaValuePorts ↔ ∃ f ∈ fs, r ∈ f.viaValuePorts
  mem_localPositions (p : Position) : p ∈ g.localPositions ↔ ∃ f ∈ fs, p ∈ f.localPositions
  mem_canonicalNames (n : CanonicalName) :
    n ∈ g.canonicalNames ↔ ∃ f ∈ fs, n ∈ f.canonicalNames

variable {position : Position} {f g : Frame} {fs : List Frame}

theorem key_eq_keyAt (hleaf : f.isLeaf) (hposition : f.callPosition = some position) :
    f.key = f.leafPlace.keyAt position := by
  rw [key, Option.isNone_iff_eq_none.1 hleaf, hposition]
  rfl

theorem leafPlace_eq {place : LeafPlace} (hkind : f.kind = place.kind)
    (hkey : f.key = place.keyAt position) : f.leafPlace = place := by
  injection hkey with hport _ hfield _ hcrtex
  rw [leafPlace, hkind, hport, hfield, hcrtex]

theorem features_eq_inferred (hlocal : f.locallyInferred = .bottom) (huser : f.userFeatures = ∅) :
    f.features = f.inferred := by
  rw [features, hlocal, huser, MayAlways.compose_bottom]
  rfl

theorem IsStart.features_eq (hg : g.IsStart position fs) :
    g.features = joinAll (fs.map features) :=
  (features_eq_inferred hg.locallyInferred hg.userFeatures).trans hg.inferred

theorem IsJoin.isStart (hg : IsJoin (fs.map (Taint.startAt position)) g) (hleaf : g.isLeaf)
    (hposition : g.callPosition = some position) : g.IsStart position fs := by
  have hpart {α : Type} [Ord α] {part : Frame → SortedSet α}
      (hg : ∀ x, x ∈ part g ↔ ∃ f ∈ fs.map (Taint.startAt position), x ∈ part f)
      (hstart : ∀ f, part (Taint.startAt position f) = part f) (x : α) :
      x ∈ part g ↔ ∃ f ∈ fs, x ∈ part f := by
    rw [hg]
    constructor
    · intro hfound
      obtain ⟨f', hf', hx⟩ := hfound
      obtain ⟨f, hf, rfl⟩ := List.mem_map.1 hf'
      exact ⟨f, hf, hstart f ▸ hx⟩
    · intro hfound
      obtain ⟨f, hf, hx⟩ := hfound
      exact ⟨_, List.mem_map_of_mem hf, (hstart f).symm ▸ hx⟩
  have hinferred : (fs.map (Taint.startAt position)).map Frame.inferred = fs.map features := by
    rw [List.map_map]
    rfl
  have hdistance : g.distance = 0 := by
    obtain ⟨f', hf', hdistance⟩ := hg.distance_mem
    obtain ⟨f, -, rfl⟩ := List.mem_map.1 hf'
    exact hdistance.symm
  have hlocal : g.locallyInferred = .bottom := by
    refine MayAlways.leq_antisymm (hg.locallyInferred.eq_joinAll ▸ ?_) rfl
    refine MayAlways.joinAll_leq_iff.2 fun m hm => ?_
    rw [List.map_map] at hm
    obtain ⟨f, -, rfl⟩ := List.mem_map.1 hm
    rfl
  have huser : g.userFeatures = ∅ := by
    refine SortedSet.ext fun x => ?_
    rw [hg.mem_userFeatures]
    simp [Taint.startAt]
  exact
    { isLeaf := hleaf
      callPosition := hposition
      distance := hdistance
      inferred := hg.inferred.eq_joinAll.trans (congrArg joinAll hinferred)
      locallyInferred := hlocal
      userFeatures := huser
      mem_origins := hpart hg.mem_origins fun _ => rfl
      mem_fieldOrigins := hpart hg.mem_fieldOrigins fun _ => rfl
      mem_viaTypePorts := hpart hg.mem_viaTypePorts fun _ => rfl
      mem_viaValuePorts := hpart hg.mem_viaValuePorts fun _ => rfl
      mem_localPositions := hpart hg.mem_localPositions fun _ => rfl
      mem_canonicalNames := hpart hg.mem_canonicalNames fun _ => rfl }

/-- The frame as it is, at another position. -/
def setCallPosition (position : Position) (f : Frame) : Frame :=
  { f with callPosition := some position }

theorem key_setCallPosition (position : Position) (f : Frame) :
    (f.setCallPosition position).key = { f.key with callPosition := some position } := rfl

theorem isHom_setCallPosition (position : Position) : IsHom (setCallPosition position) where
  kind_eq hkind _ := hkind
  key_eq {f g} _ hkey := by
    rw [key_setCallPosition, key_setCallPosition, hkey]
  join_eq _ _ := rfl

end Frame

namespace Taint

variable {t u : Taint} {p q : Position} {f g : Frame}

section Landing

variable {fs : List Frame} {kind : Kind} {key : FrameKey} {change : Frame → Frame}
  {lands : Frame → Bool} (hlands : ∀ f ∈ fs, StandsAt kind key (change f) ↔ lands f)
include hlands

theorem filter_standsAt_map :
    (fs.map change).filter (StandsAt kind key) = (fs.filter lands).map change := by
  rw [List.filter_map]
  refine congrArg _ (List.filter_congr fun f hf => ?_)
  rw [Function.comp_apply, Bool.eq_iff_iff, decide_eq_true_eq, hlands f hf]

/-- A kind and a key are taken when a changed frame lands there. -/
theorem isSome_frame?_changed :
    ((ofList (fs.map change)).frame? kind key).isSome ↔ ∃ f ∈ fs, lands f := by
  rw [isSome_frame?_ofList]
  constructor
  · intro hfound
    obtain ⟨f', hf', hstands⟩ := hfound
    obtain ⟨f, hf, rfl⟩ := List.mem_map.1 hf'
    exact ⟨f, hf, (hlands f hf).1 hstands⟩
  · intro hfound
    obtain ⟨f, hf, hland⟩ := hfound
    exact ⟨change f, List.mem_map_of_mem hf, (hlands f hf).2 hland⟩

/-- The changed frames that land under a kind and a key are joined there. -/
theorem isJoin_of_frame?_changed (hg : (ofList (fs.map change)).frame? kind key = some g) :
    g.IsJoin ((fs.filter lands).map change) := by
  rw [← filter_standsAt_map hlands]
  exact isJoin_of_frame?_ofList hg

end Landing

/-- The leaf frames. -/
def leaves (t : Taint) : List Frame := t.frames.filter Frame.isLeaf

/-- The leaf frames at one place, whatever their positions. -/
def leavesAt (t : Taint) (place : Frame.LeafPlace) : List Frame :=
  t.leaves.filter fun f => f.leafPlace = place

theorem mem_leavesAt {place : Frame.LeafPlace} :
    f ∈ t.leavesAt place ↔ f ∈ t.leaves ∧ f.leafPlace = place := by
  rw [leavesAt, List.mem_filter, decide_eq_true_eq]

theorem attachPosition_eq (p : Position) (t : Taint) :
    t.attachPosition p = ofList (t.leaves.map (startAt p)) := rfl

theorem valid_attachPosition (p : Position) (t : Taint) : (t.attachPosition p).Valid :=
  valid_ofList _

/-- A leaf frame that starts lands under the key of its place. -/
theorem standsAt_startAt_iff (place : Frame.LeafPlace) (f : Frame) (hf : f ∈ t.leaves) :
    StandsAt place.kind (place.keyAt p) (startAt p f) ↔ decide (f.leafPlace = place) := by
  have hkey : (startAt p f).key = f.leafPlace.keyAt p :=
    Frame.key_eq_keyAt (List.mem_filter.1 hf).2 rfl
  rw [decide_eq_true_eq]
  constructor
  · intro hstands
    exact Frame.leafPlace_eq (f := startAt p f) hstands.1 hstands.2
  · intro hplace
    subst hplace
    exact ⟨rfl, hkey⟩

/-- Every frame is a leaf frame at the position. -/
theorem leaf_of_mem_attachPosition (hg : g ∈ (t.attachPosition p).frames) :
    g.isLeaf ∧ g.callPosition = some p := by
  have hsplits : Frame.Splits fun f => f.isLeaf ∧ f.callPosition = some p :=
    Frame.splits_key fun key => key.callee.isNone ∧ key.callPosition = some p
  refine (forall_mem_frames_ofList_iff hsplits (t.leaves.map (startAt p))).2 (fun f' hf' => ?_) g hg
  obtain ⟨f, hf, rfl⟩ := List.mem_map.1 hf'
  exact ⟨(List.mem_filter.1 hf).2, rfl⟩

theorem mem_attachPosition_iff : g ∈ (t.attachPosition p).frames ↔
    (t.attachPosition p).frame? g.leafPlace.kind (g.leafPlace.keyAt p) = some g := by
  have hvalid := valid_attachPosition p t
  constructor
  · intro hg
    obtain ⟨hleaf, hposition⟩ := leaf_of_mem_attachPosition hg
    rw [← Frame.key_eq_keyAt hleaf hposition]
    exact (mem_frames_iff hvalid).1 hg
  · intro hg
    exact mem_frames_of_frame? hvalid hg

theorem isStart_of_mem_attachPosition (hg : g ∈ (t.attachPosition p).frames) :
    g.IsStart p (t.leavesAt g.leafPlace) := by
  obtain ⟨hleaf, hposition⟩ := leaf_of_mem_attachPosition hg
  refine Frame.IsJoin.isStart ?_ hleaf hposition
  exact isJoin_of_frame?_changed (standsAt_startAt_iff g.leafPlace) (mem_attachPosition_iff.1 hg)

theorem exists_mem_attachPosition_iff {place : Frame.LeafPlace} :
    (∃ g ∈ (t.attachPosition p).frames, g.leafPlace = place) ↔
      ∃ f ∈ t.leaves, f.leafPlace = place := by
  have hvalid := valid_attachPosition p t
  have htaken : ((t.attachPosition p).frame? place.kind (place.keyAt p)).isSome ↔
      ∃ f ∈ t.leaves, decide (f.leafPlace = place) :=
    isSome_frame?_changed (standsAt_startAt_iff place)
  simp only [decide_eq_true_eq] at htaken
  rw [← htaken]
  constructor
  · intro hfound
    obtain ⟨g, hg, rfl⟩ := hfound
    exact Option.isSome_iff_exists.2 ⟨g, mem_attachPosition_iff.1 hg⟩
  · intro hsome
    obtain ⟨g, hg⟩ := Option.isSome_iff_exists.1 hsome
    obtain ⟨hkind, hkey⟩ := key_of_frame? hvalid hg
    exact ⟨g, mem_frames_of_frame? hvalid hg, Frame.leafPlace_eq hkind hkey⟩

/-- Leaf frames at one place are merged. -/
theorem eq_of_leafPlace_eq (hf : f ∈ (t.attachPosition p).frames)
    (hg : g ∈ (t.attachPosition p).frames) (hplace : f.leafPlace = g.leafPlace) : f = g := by
  have hstands := mem_attachPosition_iff.1 hf
  rw [hplace] at hstands
  exact Option.some.inj (hstands.symm.trans (mem_attachPosition_iff.1 hg))

/-- The features of the leaf frames are kept. -/
theorem featuresJoined_attachPosition (p : Position) (t : Taint) :
    (t.attachPosition p).featuresJoined = joinAll (t.leaves.map Frame.features) := by
  rw [featuresJoined_eq]
  refine MayAlways.joinLaws.eq_of_forall_leq_iff trivial trivial fun e _ => ?_
  refine MayAlways.joinAll_leq_iff.trans (Iff.trans ?_ MayAlways.joinAll_leq_iff.symm)
  simp only [List.forall_mem_map]
  constructor
  · intro hall f hf
    obtain ⟨g, hg, hplace⟩ := (exists_mem_attachPosition_iff (p := p)).2 ⟨f, hf, rfl⟩
    have hle := hall g hg
    rw [(isStart_of_mem_attachPosition hg).features_eq, MayAlways.joinAll_leq_iff] at hle
    exact hle _ (List.mem_map_of_mem (mem_leavesAt.2 ⟨hf, hplace.symm⟩))
  · intro hall g hg
    rw [(isStart_of_mem_attachPosition hg).features_eq, MayAlways.joinAll_leq_iff]
    intro m hm
    obtain ⟨f, hf, rfl⟩ := List.mem_map.1 hm
    exact hall f (mem_leavesAt.1 hf).1

/-- A frame that has started keeps all but its position when it starts again. -/
theorem startAt_of_isStart {fs : List Frame} (hg : g.IsStart q fs) :
    startAt p g = g.setCallPosition p := by
  have hfeatures : g.features = g.inferred :=
    Frame.features_eq_inferred hg.locallyInferred hg.userFeatures
  unfold startAt Frame.setCallPosition
  rw [hfeatures, ← hg.distance, ← hg.locallyInferred, ← hg.userFeatures]

/-- The last position counts. -/
theorem attachPosition_attachPosition (p q : Position) (t : Taint) :
    (t.attachPosition q).attachPosition p = t.attachPosition p := by
  have hleaves : (t.attachPosition q).leaves = (t.attachPosition q).frames :=
    List.filter_eq_self.2 fun g hg => (isStart_of_mem_attachPosition hg).isLeaf
  have hmove : (t.attachPosition q).frames.map (startAt p) =
      (t.attachPosition q).frames.map (Frame.setCallPosition p) :=
    List.map_congr_left fun g hg => startAt_of_isStart (isStart_of_mem_attachPosition hg)
  have hadd : Additive (Frame.replace fun _ _ => [Frame.setCallPosition p]) := by
    refine additive_replace fun _ _ change hchange => ?_
    rw [List.mem_singleton.1 hchange]
    exact Frame.isHom_setCallPosition p
  have hstart : (t.leaves.map (startAt q)).flatMap
      (Frame.replace fun _ _ => [Frame.setCallPosition p]) = t.leaves.map (startAt p) := by
    rw [List.flatMap_map, List.map_eq_flatMap]
    rfl
  rw [attachPosition_eq p, hleaves, hmove, List.map_eq_flatMap, attachPosition_eq p, ← hstart]
  exact expand_ofList hadd (t.leaves.map (startAt q))

/-- Leaf frames start again at a position, and nothing else does. There is one frame for each place
at which there is a leaf frame, and it is what all leaf frames of that place become. No feature of a
leaf frame is lost, and of several positions the last one counts. -/
theorem attachPosition_restarts (t : Taint) (p q : Position) :
    (∀ g ∈ (t.attachPosition p).frames, g.IsStart p (t.leavesAt g.leafPlace)) ∧
      (∀ place, (∃ g ∈ (t.attachPosition p).frames, g.leafPlace = place) ↔
        ∃ f ∈ t.leaves, f.leafPlace = place) ∧
      (∀ f ∈ (t.attachPosition p).frames, ∀ g ∈ (t.attachPosition p).frames,
        f.leafPlace = g.leafPlace → f = g) ∧
      (t.attachPosition p).featuresJoined = joinAll (t.leaves.map Frame.features) ∧
      (t.attachPosition q).attachPosition p = t.attachPosition p := by
  refine ⟨fun g hg => ?_, fun place => ?_, fun f hf g hg => ?_, ?_, ?_⟩
  · exact isStart_of_mem_attachPosition hg
  · exact exists_mem_attachPosition_iff
  · exact eq_of_leafPlace_eq hf hg
  · exact featuresJoined_attachPosition p t
  · exact attachPosition_attachPosition p q t

/-- A feature that only one of two leaf frames has is not certain of the frame to which they are
merged, whether it was inferred or given by the user. -/
example :
    let first : Frame := { Frame.declared ⟨"Source"⟩ (.ofRoot .leaf) with
      callPosition := some ⟨none, 1⟩
      inferred := .ofAlways (.ofList [⟨"seen"⟩]) }
    let second : Frame := { Frame.declared ⟨"Source"⟩ (.ofRoot .leaf) with
      callPosition := some ⟨none, 2⟩
      userFeatures := .ofList [⟨"user"⟩] }
    ((ofList [first, second]).attachPosition ⟨none, 3⟩).frames.map Frame.inferred =
      [.ofMay (.ofList [⟨"seen"⟩, ⟨"user"⟩])] := by
  decide

section Move

variable {newCall : Signature → AccessPath → Option Position → Position}
  {newLocal : SortedSet Position → SortedSet Position} {kind : Kind} {key : FrameKey}

/-- Whether the frame has a callee and comes to stand under the kind and the key when its call
position is recomputed. -/
def movesTo (newCall : Signature → AccessPath → Option Position → Position) (kind : Kind)
    (key : FrameKey) (f : Frame) : Bool :=
  decide (f.kind = kind) && f.callee.any fun callee =>
    decide ({ f.key with callPosition := some (newCall callee f.port f.callPosition) } = key)

theorem movePositions_of_isLeaf (hf : f.isLeaf) : movePositions newCall newLocal f = f := by
  rw [movePositions, Option.isNone_iff_eq_none.1 hf]

/-- The frame at the call position of the key, with its local positions recomputed. -/
def relocated (newLocal : SortedSet Position → SortedSet Position) (key : FrameKey) (f : Frame) :
    Frame :=
  { f with callPosition := key.callPosition, localPositions := newLocal f.localPositions }

/-- A frame with a callee is relocated to the key that it comes to have. -/
theorem movePositions_of_callee {callee : Signature} (hf : f.callee = some callee) :
    movePositions newCall newLocal f = relocated newLocal
      { f.key with callPosition := some (newCall callee f.port f.callPosition) } f := by
  unfold movePositions
  split
  · rename_i hnone
    cases hnone.symm.trans hf
  · rename_i callee' hsome
    cases hsome.symm.trans hf
    rfl

theorem callee_movePositions (f : Frame) :
    (movePositions newCall newLocal f).callee = f.callee := by
  unfold movePositions
  split <;> rfl

/-- The frames that land under a key with a callee are those that move there. -/
theorem standsAt_movePositions_iff (hkey : key.callee.isSome) :
    StandsAt kind key (movePositions newCall newLocal f) ↔ movesTo newCall kind key f := by
  unfold movesTo
  cases hcallee : f.callee with
  | none =>
      rw [movePositions_of_isLeaf (Option.isNone_iff_eq_none.2 hcallee), Option.any_none,
        Bool.and_false]
      refine iff_of_false (fun hstands => ?_) Bool.false_ne_true
      rw [← hstands.2, Frame.key, hcallee] at hkey
      cases hkey
  | some callee =>
      rw [movePositions_of_callee hcallee, Option.any_some, Bool.and_eq_true, decide_eq_true_eq,
        decide_eq_true_eq]
      exact Iff.rfl

theorem movePositions_of_movesTo (h : movesTo newCall kind key f) :
    movePositions newCall newLocal f = relocated newLocal key f := by
  unfold movesTo at h
  cases hcallee : f.callee with
  | none => simp [hcallee] at h
  | some callee =>
      simp only [hcallee, Option.any_some, Bool.and_eq_true, decide_eq_true_eq] at h
      rw [movePositions_of_callee hcallee, h.2]

theorem updateNonLeafPositions_eq (ht : t.Valid) :
    t.updateNonLeafPositions newCall newLocal =
      ofList (t.frames.map (movePositions newCall newLocal)) := by
  rw [List.map_eq_flatMap]
  exact map_eq_expand ht (kind_movePositions newCall newLocal)

theorem isSome_frame?_updateNonLeafPositions (ht : t.Valid) (hkey : key.callee.isSome) :
    ((t.updateNonLeafPositions newCall newLocal).frame? kind key).isSome ↔
      ∃ f ∈ t.frames, movesTo newCall kind key f := by
  rw [updateNonLeafPositions_eq ht]
  exact isSome_frame?_changed fun _ _ => standsAt_movePositions_iff hkey

theorem isJoin_of_frame?_updateNonLeafPositions (ht : t.Valid) (hkey : key.callee.isSome)
    (hg : (t.updateNonLeafPositions newCall newLocal).frame? kind key = some g) :
    g.IsJoin ((t.frames.filter (movesTo newCall kind key)).map (relocated newLocal key)) := by
  have hmoved : (t.frames.filter (movesTo newCall kind key)).map (movePositions newCall newLocal) =
      (t.frames.filter (movesTo newCall kind key)).map (relocated newLocal key) :=
    List.map_congr_left fun f hf => movePositions_of_movesTo (List.mem_filter.1 hf).2
  rw [updateNonLeafPositions_eq ht] at hg
  rw [← hmoved]
  exact isJoin_of_frame?_changed (fun _ _ => standsAt_movePositions_iff hkey) hg

/-- Under a key without a callee nothing changes. -/
theorem frame?_updateNonLeafPositions_of_isNone (ht : t.Valid) (hkey : key.callee.isNone) :
    (t.updateNonLeafPositions newCall newLocal).frame? kind key = t.frame? kind key := by
  have hstay (f : Frame) (hf : StandsAt kind key (movePositions newCall newLocal f) ∨
      StandsAt kind key f) : movePositions newCall newLocal f = f := by
    refine movePositions_of_isLeaf ?_
    rcases hf with hf | hf
    · have hcallee : (movePositions newCall newLocal f).callee = key.callee :=
        congrArg FrameKey.callee hf.2
      rwa [Frame.isLeaf, ← callee_movePositions, hcallee]
    · have hcallee : f.callee = key.callee := congrArg FrameKey.callee hf.2
      rwa [Frame.isLeaf, hcallee]
  have hlands : ∀ f ∈ t.frames, StandsAt kind key (movePositions newCall newLocal f) ↔
      decide (StandsAt kind key f) := by
    intro f _
    rw [decide_eq_true_eq]
    constructor
    · intro hf
      rwa [hstay f (.inl hf)] at hf
    · intro hf
      rwa [hstay f (.inr hf)]
  have hleaves : (t.frames.map (movePositions newCall newLocal)).filter (StandsAt kind key) =
      t.frames.filter (StandsAt kind key) := by
    rw [filter_standsAt_map hlands]
    refine (List.map_congr_left fun f hf => ?_).trans (List.map_id _)
    exact hstay f (.inr (of_decide_eq_true (List.mem_filter.1 hf).2))
  rw [updateNonLeafPositions_eq ht, frame?_ofList, hleaves, ← frame?_ofList, ofList_frames ht]

/-- Leaf frames stay as they are. -/
theorem leaves_updateNonLeafPositions (ht : t.Valid) :
    (t.updateNonLeafPositions newCall newLocal).leaves.Perm t.leaves := by
  have hvalid : (t.updateNonLeafPositions newCall newLocal).Valid :=
    valid_map ht (kind_movePositions newCall newLocal)
  refine (List.perm_ext_iff_of_nodup ((nodup_frames hvalid).filter _)
    ((nodup_frames ht).filter _)).2 fun f => ?_
  rw [List.mem_filter, List.mem_filter, mem_frames_iff hvalid, mem_frames_iff ht]
  refine and_congr_left fun hleaf => ?_
  have hframe : (t.updateNonLeafPositions newCall newLocal).frame? f.kind f.key =
      t.frame? f.kind f.key := frame?_updateNonLeafPositions_of_isNone ht hleaf
  rw [hframe]

/-- Leaf frames stay as they are when positions are recomputed, and all others move. Under a kind
and a key with a callee there stands a frame exactly when a frame moves there, and then it is the
join of all frames that do, each with its positions replaced. -/
theorem updateNonLeafPositions_moves (ht : t.Valid)
    (newCall : Signature → AccessPath → Option Position → Position)
    (newLocal : SortedSet Position → SortedSet Position) :
    (t.updateNonLeafPositions newCall newLocal).leaves.Perm t.leaves ∧
      ∀ kind key, key.callee.isSome →
        (((t.updateNonLeafPositions newCall newLocal).frame? kind key).isSome ↔
          ∃ f ∈ t.frames, movesTo newCall kind key f) ∧
        ∀ g, (t.updateNonLeafPositions newCall newLocal).frame? kind key = some g →
          g.IsJoin ((t.frames.filter (movesTo newCall kind key)).map (relocated newLocal key)) := by
  refine ⟨leaves_updateNonLeafPositions ht, fun kind key hkey => ⟨?_, fun g hg => ?_⟩⟩
  · exact isSome_frame?_updateNonLeafPositions ht hkey
  · exact isJoin_of_frame?_updateNonLeafPositions ht hkey hg

/-- Two calls that are moved to one position leave one frame there, as near as the nearer of them,
and a leaf frame of the kind stays where it is. -/
theorem updateNonLeafPositions_moves_of_two_calls :
    let near : Frame := { Frame.sample with callPosition := some ⟨none, 1⟩ }
    let far : Frame := { Frame.sample with
      callPosition := some ⟨none, 2⟩
      distance := 3
      localPositions := .ofList [⟨none, 7⟩] }
    let t := ofList [near, far, .declared ⟨"Source"⟩ (.ofRoot .leaf)]
    let u := t.updateNonLeafPositions (fun _ _ _ => ⟨none, 9⟩) (·.insert ⟨none, 8⟩)
    let key : FrameKey := { Frame.sample.key with callPosition := some ⟨none, 9⟩ }
    t.Valid ∧ key.callee.isSome ∧ u.leaves.Perm t.leaves ∧ t.leaves.length = 1 ∧
      ∃ g, u.frame? ⟨"Source"⟩ key = some g ∧ g.distance ≤ 0 ∧
        ⟨none, 7⟩ ∈ g.localPositions ∧ ⟨none, 8⟩ ∈ g.localPositions := by
  intro near far t u key
  have ht : t.Valid := valid_ofList _
  have hkey : key.callee.isSome := by decide
  obtain ⟨hleaves, hmoves⟩ := updateNonLeafPositions_moves ht (fun _ _ _ => ⟨none, 9⟩)
    (·.insert ⟨none, 8⟩)
  obtain ⟨htaken, hjoin⟩ := hmoves ⟨"Source"⟩ key hkey
  obtain ⟨g, hg⟩ := Option.isSome_iff_exists.1 (htaken.2 ⟨near, by decide, by decide⟩)
  have hjoined := hjoin g hg
  have hlanded : ∀ f ∈ [near, far], relocated (·.insert ⟨none, 8⟩) key f ∈
      (t.frames.filter (movesTo (fun _ _ _ => ⟨none, 9⟩) ⟨"Source"⟩ key)).map
        (relocated (·.insert ⟨none, 8⟩) key) := by decide
  refine ⟨ht, hkey, hleaves, by decide, g, hg, ?_, ?_, ?_⟩
  · exact hjoined.distance_le _ (hlanded near (by decide))
  · exact (hjoined.mem_localPositions _).2 ⟨_, hlanded far (by decide), by decide⟩
  · exact (hjoined.mem_localPositions _).2 ⟨_, hlanded near (by decide), by decide⟩

end Move

end Taint
end TaintFlow
