import TaintFlow.Proofs.Order.Collected
import TaintFlow.Proofs.Propagation.Order

/-!
# Regrouping frames

A change of frames may change their keys. The changed frames are filed one after the other, in the
order in which the set happens to be enumerated, and those that come to have one key are merged. The
order leaves no trace: under each key there stands the join of all frames that have the key, and a
join is determined by what its frames hold (`Frame.IsJoin`), whichever of them came first.
-/
namespace TaintFlow
open MayAlways (Known Certain joinAll)

namespace MayAlways

variable {ms : List MayAlways} {m e : MayAlways}

/-- What is known of all paths `ms` together is `m`. -/
structure IsJoin (ms : List MayAlways) (m : MayAlways) : Prop where
  isBottom : m.isBottom = false ↔ Known ms
  mem_may (x : Feature) : x ∈ m.may ↔ ∃ e ∈ ms, x ∈ e.may
  mem_always (x : Feature) : x ∈ m.always ↔ Certain ms x

theorem isJoin_joinAll (ms : List MayAlways) : IsJoin ms (joinAll ms) :=
  ⟨isBottom_joinAll, fun _ => mem_may_joinAll, fun _ => mem_always_joinAll⟩

/-- More paths are joined to a larger value. -/
theorem IsJoin.leq_of_subset {ns : List MayAlways} (hm : IsJoin ms m) (he : IsJoin ns e)
    (hsub : ∀ p ∈ ms, p ∈ ns) : m.leq e := by
  refine leq_iff.2 fun hsome => ?_
  have hknown : Known ms := hm.isBottom.1 hsome
  refine ⟨he.isBottom.2 ?_, fun x hx => ?_, fun x hx => ?_⟩
  · obtain ⟨p, hp, hpsome⟩ := hknown
    exact ⟨p, hsub p hp, hpsome⟩
  · obtain ⟨p, hp, hpx⟩ := (hm.mem_may x).1 hx
    exact (he.mem_may x).2 ⟨p, hsub p hp, hpx⟩
  · have hcertain : Certain ns x := (he.mem_always x).1 hx
    exact (hm.mem_always x).2 ⟨hknown, fun p hp => hcertain.2 p (hsub p hp)⟩

theorem IsJoin.eq_joinAll (h : IsJoin ms m) : m = joinAll ms :=
  leq_antisymm (h.leq_of_subset (isJoin_joinAll ms) fun _ hp => hp)
    ((isJoin_joinAll ms).leq_of_subset h fun _ hp => hp)

theorem IsJoin.join (h : IsJoin ms m) (e : MayAlways) : IsJoin (ms ++ [e]) (m.join e) := by
  have hfold : m.join e = joinAll (ms ++ [e]) := by
    rw [h.eq_joinAll, joinAll, joinAll, List.foldl_append]
    rfl
  exact hfold ▸ isJoin_joinAll (ms ++ [e])

theorem isJoin_singleton (m : MayAlways) : IsJoin [m] m := by
  have hjoin := isJoin_joinAll [m]
  rwa [joinAll_singleton] at hjoin

end MayAlways

namespace Frame

variable {f g a b : Frame} {fs gs : List Frame}

/-- The frames `fs`, which have one key, are joined in `a`: it is as near as the nearest of them and
holds what any of them holds. -/
structure IsJoin (fs : List Frame) (a : Frame) : Prop where
  kind : ∃ f ∈ fs, f.kind = a.kind
  key (f : Frame) : f ∈ fs → f.key = a.key
  distance_le (f : Frame) : f ∈ fs → a.distance ≤ f.distance
  distance_mem : ∃ f ∈ fs, f.distance = a.distance
  mem_origins (o : Signature) : o ∈ a.origins ↔ ∃ f ∈ fs, o ∈ f.origins
  mem_fieldOrigins (o : Field) : o ∈ a.fieldOrigins ↔ ∃ f ∈ fs, o ∈ f.fieldOrigins
  inferred : MayAlways.IsJoin (fs.map inferred) a.inferred
  locallyInferred : MayAlways.IsJoin (fs.map locallyInferred) a.locallyInferred
  mem_userFeatures (x : Feature) : x ∈ a.userFeatures ↔ ∃ f ∈ fs, x ∈ f.userFeatures
  mem_viaTypePorts (r : Root) : r ∈ a.viaTypePorts ↔ ∃ f ∈ fs, r ∈ f.viaTypePorts
  mem_viaValuePorts (r : Root) : r ∈ a.viaValuePorts ↔ ∃ f ∈ fs, r ∈ f.viaValuePorts
  mem_localPositions (p : Position) : p ∈ a.localPositions ↔ ∃ f ∈ fs, p ∈ f.localPositions
  mem_canonicalNames (n : CanonicalName) :
    n ∈ a.canonicalNames ↔ ∃ f ∈ fs, n ∈ f.canonicalNames

theorem isJoin_singleton (f : Frame) : IsJoin [f] f where
  kind := ⟨f, List.mem_singleton_self f, rfl⟩
  key _ hg := congrArg Frame.key (List.mem_singleton.1 hg)
  distance_le _ hg := UInt32.le_of_eq (congrArg distance (List.mem_singleton.1 hg).symm)
  distance_mem := ⟨f, List.mem_singleton_self f, rfl⟩
  mem_origins _ := by simp
  mem_fieldOrigins _ := by simp
  inferred := MayAlways.isJoin_singleton _
  locallyInferred := MayAlways.isJoin_singleton _
  mem_userFeatures _ := by simp
  mem_viaTypePorts _ := by simp
  mem_viaValuePorts _ := by simp
  mem_localPositions _ := by simp
  mem_canonicalNames _ := by simp

/-- One more frame with the key is joined to the others; the join stays under the key. -/
theorem IsJoin.join (ha : IsJoin fs a) (hkey : g.key = a.key) : IsJoin (fs ++ [g]) (a.join g) := by
  have hle := leq_iff.1 (leq_join_left a g)
  have hle' := leq_iff.1 (leq_join_right a g)
  have hunion {α : Type} [Ord α] [Std.TransOrd α] [Std.LawfulEqOrd α] {part : Frame → SortedSet α}
      (hpart : ∀ x, x ∈ part a ↔ ∃ f ∈ fs, x ∈ part f) (x : α) :
      x ∈ (part a).union (part g) ↔ ∃ f ∈ fs ++ [g], x ∈ part f := by
    simp [hpart, or_and_right, exists_or]
  refine
    { kind := ?_
      key := fun f hf => ?_
      distance_le := fun f hf => ?_
      distance_mem := ?_
      mem_origins := hunion ha.mem_origins
      mem_fieldOrigins := hunion ha.mem_fieldOrigins
      inferred := ?_
      locallyInferred := ?_
      mem_userFeatures := hunion ha.mem_userFeatures
      mem_viaTypePorts := hunion ha.mem_viaTypePorts
      mem_viaValuePorts := hunion ha.mem_viaValuePorts
      mem_localPositions := hunion ha.mem_localPositions
      mem_canonicalNames := hunion ha.mem_canonicalNames }
  · obtain ⟨f, hf, hkind⟩ := ha.kind
    exact ⟨f, List.mem_append_left [g] hf, hkind⟩
  · rw [key_join hkey]
    rcases List.mem_append.1 hf with hf | hf
    · exact ha.key f hf
    · rw [List.mem_singleton.1 hf, hkey]
  · rcases List.mem_append.1 hf with hf | hf
    · exact UInt32.le_trans hle.1 (ha.distance_le f hf)
    · rw [List.mem_singleton.1 hf]
      exact hle'.1
  · rcases (Std.min_eq_or : (a.join g).distance = a.distance ∨ (a.join g).distance = g.distance)
      with heq | heq
    · obtain ⟨f, hf, hdistance⟩ := ha.distance_mem
      exact ⟨f, List.mem_append_left [g] hf, hdistance.trans heq.symm⟩
    · exact ⟨g, List.mem_append_right fs (List.mem_singleton_self g), heq.symm⟩
  · rw [List.map_append]
    exact ha.inferred.join g.inferred
  · rw [List.map_append]
    exact ha.locallyInferred.join g.locallyInferred

theorem IsJoin.foldl (ha : IsJoin fs a) (hkeys : ∀ g ∈ gs, g.key = a.key) :
    IsJoin (fs ++ gs) (gs.foldl Frame.join a) := by
  induction gs generalizing fs a with
  | nil => rwa [List.append_nil]
  | cons g gs ih =>
      have hkey : g.key = a.key := hkeys g List.mem_cons_self
      have hrest : ∀ g' ∈ gs, g'.key = (a.join g).key := fun g' hg' =>
        (hkeys g' (List.mem_cons_of_mem g hg')).trans (key_join hkey).symm
      rw [List.append_cons]
      exact ih (ha.join hkey) hrest

/-- What frames with one key leave when they are gathered one after the other is their join. -/
theorem isJoin_of_gathered {key : FrameKey} (hkeys : ∀ f ∈ fs, f.key = key)
    (ha : fs.foldl Grouped.gather none = some a) : IsJoin fs a := by
  cases fs with
  | nil => cases ha
  | cons f fs =>
      rw [List.foldl_cons, Grouped.gather, Option.elim_none, Grouped.foldl_gather_some,
        Option.some.injEq] at ha
      rw [← ha]
      refine (isJoin_singleton f).foldl fun g hg => ?_
      exact (hkeys g (List.mem_cons_of_mem f hg)).trans (hkeys f List.mem_cons_self).symm

/-- More frames are joined to a larger frame. -/
theorem IsJoin.leq_of_subset (ha : IsJoin fs a) (hb : IsJoin gs b) (hsub : ∀ f ∈ fs, f ∈ gs) :
    a.leq b := by
  have hpart {α : Type} [Ord α] {part : Frame → SortedSet α}
      (hfs : ∀ x, x ∈ part a ↔ ∃ f ∈ fs, x ∈ part f)
      (hgs : ∀ x, x ∈ part b ↔ ∃ f ∈ gs, x ∈ part f) (x : α) (hx : x ∈ part a) : x ∈ part b := by
    obtain ⟨f, hf, hfx⟩ := (hfs x).1 hx
    exact (hgs x).2 ⟨f, hsub f hf, hfx⟩
  have hfeatures {part : Frame → MayAlways} (hfs : MayAlways.IsJoin (fs.map part) (part a))
      (hgs : MayAlways.IsJoin (gs.map part) (part b)) : (part a).leq (part b) := by
    refine hfs.leq_of_subset hgs fun m hm => ?_
    obtain ⟨f, hf, rfl⟩ := List.mem_map.1 hm
    exact List.mem_map_of_mem (hsub f hf)
  have hdistance : b.distance ≤ a.distance := by
    obtain ⟨f, hf, heq⟩ := ha.distance_mem
    exact heq ▸ hb.distance_le f (hsub f hf)
  exact leq_iff.2 ⟨hdistance, hpart ha.mem_origins hb.mem_origins,
    hpart ha.mem_fieldOrigins hb.mem_fieldOrigins, hfeatures ha.inferred hb.inferred,
    hfeatures ha.locallyInferred hb.locallyInferred,
    hpart ha.mem_userFeatures hb.mem_userFeatures, hpart ha.mem_viaTypePorts hb.mem_viaTypePorts,
    hpart ha.mem_viaValuePorts hb.mem_viaValuePorts,
    hpart ha.mem_localPositions hb.mem_localPositions,
    hpart ha.mem_canonicalNames hb.mem_canonicalNames⟩

/-- Frames of one kind have one join, in whichever order they are met. -/
theorem IsJoin.eq_of_perm (ha : IsJoin fs a) (hb : IsJoin gs b) (hperm : fs.Perm gs)
    (hkind : ∀ f ∈ fs, ∀ g ∈ fs, f.kind = g.kind) : a = b := by
  obtain ⟨f, hf, hfkind⟩ := ha.kind
  obtain ⟨g, hg, hgkind⟩ := hb.kind
  have hgfs : g ∈ fs := hperm.mem_iff.2 hg
  have hsame : a.kind = b.kind := hfkind.symm.trans ((hkind f hf g hgfs).trans hgkind)
  have hkey : a.key = b.key := (ha.key g hgfs).symm.trans (hb.key g hg)
  apply leq_antisymm hsame hkey
  · exact ha.leq_of_subset hb fun f hf => hperm.mem_iff.1 hf
  · exact hb.leq_of_subset ha fun f hf => hperm.mem_iff.2 hf

end Frame

namespace Grouped

variable {fs gs : List Frame} {r r' : Grouped FrameKey Frame}

/-- The frames `fs` are filed in `r`: under each key stands the join of those that have the key. -/
structure IsRegrouping (fs : List Frame) (r : Grouped FrameKey Frame) : Prop where
  isSome_get?_iff (key : FrameKey) : (r.get? key).isSome ↔ ∃ f ∈ fs, f.key = key
  isJoin (key : FrameKey) (a : Frame) : r.get? key = some a →
    Frame.IsJoin (fs.filter fun f => f.key = key) a

theorem isRegrouping_ofList (fs : List Frame) : IsRegrouping fs (ofList fs) := by
  refine ⟨fun key => ?_, fun key a ha => ?_⟩
  · rw [isSome_get?_ofList]
    exact exists_congr fun f => and_congr_right fun _ => and_iff_right rfl
  · have hlands : fs.filter (landsAt key) = fs.filter fun f => f.key = key := by
      refine List.filter_congr fun f _ => ?_
      rw [Bool.eq_iff_iff, landsAt_iff, decide_eq_true_eq]
      exact (and_iff_right rfl).trans eq_comm
    rw [get?_ofList, hlands] at ha
    exact Frame.isJoin_of_gathered (fun f hf => of_decide_eq_true (List.mem_filter.1 hf).2) ha

/-- Frames with equal keys are of one kind, as they are within a set of frames of one kind. -/
def KindByKey (fs : List Frame) : Prop := ∀ f ∈ fs, ∀ g ∈ fs, f.key = g.key → f.kind = g.kind

/-- The order in which frames are filed leaves no trace. -/
theorem IsRegrouping.eq_of_perm (hr : IsRegrouping fs r) (hr' : IsRegrouping gs r')
    (hperm : fs.Perm gs) (hkinds : KindByKey fs) : r = r' := by
  refine get?_ext fun key => ?_
  have hsome : (r.get? key).isSome ↔ (r'.get? key).isSome := by
    rw [hr.isSome_get?_iff, hr'.isSome_get?_iff]
    exact exists_congr fun f => and_congr_left' hperm.mem_iff
  cases ha : r.get? key with
  | none =>
      rw [ha] at hsome
      exact (Option.not_isSome_iff_eq_none.1 fun h => Bool.false_ne_true (hsome.2 h)).symm
  | some a =>
      rw [ha] at hsome
      obtain ⟨b, hb⟩ := Option.isSome_iff_exists.1 (hsome.1 rfl)
      rw [hb]
      refine congrArg some ((hr.isJoin key a ha).eq_of_perm (hr'.isJoin key b hb)
        (hperm.filter _) fun f hf g hg => ?_)
      obtain ⟨hffs, hfkey⟩ := List.mem_filter.1 hf
      obtain ⟨hgfs, hgkey⟩ := List.mem_filter.1 hg
      exact hkinds f hffs g hgfs ((of_decide_eq_true hfkey).trans (of_decide_eq_true hgkey).symm)

theorem ofList_eq_of_perm (hperm : fs.Perm gs) (hkinds : KindByKey fs) : ofList fs = ofList gs :=
  (isRegrouping_ofList fs).eq_of_perm (isRegrouping_ofList gs) hperm hkinds

theorem kindByKey_of_forall (kind : Kind) (h : ∀ f ∈ fs, f.kind = kind) : KindByKey fs :=
  fun f hf g hg _ => (h f hf).trans (h g hg).symm

/-- When the frames of a set of one kind are changed, or changed and dropped in part, or when frames
are collected, there stands under each key afterwards the join of all frames that have the key then,
in whichever order the frames are met. -/
theorem regrouping_isExact {kind : Kind} {g : Grouped FrameKey Frame}
    (hg : ∀ f ∈ g.elements, f.kind = kind) :
    (∀ change : Frame → Frame, (∀ f ∈ g.elements, (change f).kind = f.kind) →
      IsRegrouping (g.elements.map change) (g.map change) ∧
        ∀ fs : List Frame, fs.Perm g.elements → ofList (fs.map change) = g.map change) ∧
    (∀ change : Frame → Option Frame,
        (∀ f ∈ g.elements, ∀ f', change f = some f' → f'.kind = f.kind) →
      IsRegrouping (g.elements.filterMap change) (g.rebuild change) ∧
        ∀ fs : List Frame, fs.Perm g.elements → ofList (fs.filterMap change) = g.rebuild change) ∧
    ∀ fs, IsRegrouping fs (ofList fs) ∧
      (KindByKey fs → ∀ gs, gs.Perm fs → ofList gs = ofList fs) := by
  refine ⟨fun change hchange => ?_, fun change hchange => ?_, fun fs => ?_⟩
  · have hkinds : KindByKey (g.elements.map change) := by
      refine kindByKey_of_forall kind fun f' hf' => ?_
      obtain ⟨f, hf, rfl⟩ := List.mem_map.1 hf'
      exact (hchange f hf).trans (hg f hf)
    refine ⟨isRegrouping_ofList _, fun fs hperm => ?_⟩
    exact (ofList_eq_of_perm (hperm.symm.map change) hkinds).symm
  · have hkinds : KindByKey (g.elements.filterMap change) := by
      refine kindByKey_of_forall kind fun f' hf' => ?_
      obtain ⟨f, hf, hff'⟩ := List.mem_filterMap.1 hf'
      exact (hchange f hf f' hff').trans (hg f hf)
    refine ⟨isRegrouping_ofList _, fun fs hperm => ?_⟩
    exact (ofList_eq_of_perm (hperm.symm.filterMap change) hkinds).symm
  · refine ⟨isRegrouping_ofList fs, fun hkinds gs hperm => ?_⟩
    exact (ofList_eq_of_perm hperm.symm hkinds).symm

/-- Two frames at different ports that are moved to one port are merged there, in either order: the
nearer one gives the distance, and what only one of them holds is kept. -/
theorem regrouping_isExact_of_two_ports :
    let near : Frame := { Frame.sample with port := .ofRoot (.argument 0) }
    let far : Frame := { Frame.sample with distance := 2, userFeatures := .ofList [⟨"user"⟩] }
    let g : Grouped FrameKey Frame := ofList [far, near]
    let change : Frame → Frame := fun f => { f with port := .ofRoot .leaf }
    (∀ f ∈ g.elements, f.kind = ⟨"Source"⟩) ∧ g.size = 2 ∧
      (∃ a, (g.map change).get? (change near).key = some a ∧ a.distance ≤ 0 ∧
        ⟨"user"⟩ ∈ a.userFeatures) ∧
      ofList ([near, far].map change) = g.map change ∧
      ofList ([far, near].map change) = g.map change := by
  intro near far g change
  have hkind : ∀ f ∈ g.elements, f.kind = ⟨"Source"⟩ := by decide
  obtain ⟨hmap, -, -⟩ := regrouping_isExact hkind
  obtain ⟨hregroups, horder⟩ := hmap change fun _ _ => rfl
  have hnear : change near ∈ g.elements.map change := by decide
  have hlanded : ∀ f ∈ [near, far],
      change f ∈ (g.elements.map change).filter fun f' => f'.key = (change near).key := by decide
  obtain ⟨a, ha⟩ := Option.isSome_iff_exists.1
    ((hregroups.isSome_get?_iff (change near).key).2 ⟨change near, hnear, rfl⟩)
  have hjoin := hregroups.isJoin _ a ha
  refine ⟨hkind, by decide, ⟨a, ha, hjoin.distance_le _ (hlanded near (by decide)), ?_⟩, ?_, ?_⟩
  · exact (hjoin.mem_userFeatures _).2 ⟨change far, hlanded far (by decide), by decide⟩
  · exact horder [near, far] (by decide)
  · exact horder [far, near] (by decide)

end Grouped

namespace Taint

variable {fs : List Frame} {kind : Kind} {key : FrameKey} {a : Frame}

/-- A kind and a key are taken when a frame that has them was collected. -/
theorem isSome_frame?_ofList :
    ((ofList fs).frame? kind key).isSome ↔ ∃ f ∈ fs, StandsAt kind key f := by
  rw [frame?_ofList, Grouped.foldl_gather_isSome, Option.isSome_none, Bool.false_or,
    Bool.not_eq_true', ← Bool.not_eq_true, List.isEmpty_iff, List.filter_eq_nil_iff]
  simp only [Classical.not_forall, Classical.not_not, exists_prop, decide_eq_true_eq]

/-- Under a kind and a key there stands the join of the collected frames that have them. -/
theorem isJoin_of_frame?_ofList (ha : (ofList fs).frame? kind key = some a) :
    Frame.IsJoin (fs.filter (StandsAt kind key)) a := by
  rw [frame?_ofList] at ha
  exact Frame.isJoin_of_gathered (fun f hf => (of_decide_eq_true (List.mem_filter.1 hf).2).2) ha

end Taint
end TaintFlow
