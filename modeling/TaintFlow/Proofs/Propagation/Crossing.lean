import TaintFlow.Proofs.Order.Taint
import TaintFlow.Proofs.Propagation.Features
import TaintFlow.Propagation.Taint

/-!
# What stands behind a call

The frames of one kind come to stand under two keys behind a call: all ordinary frames that cross
under one, and all producers that cross under the other, which is that of a frame with canonical
names. Under either key stands one frame, and it is described by the list of the frames that cross.
-/
namespace TaintFlow
open MayAlways (Known joinAll)
open SortedSet (unionOf)

namespace Frame

/-- The frame at a call to which the frames `fs` are merged. -/
def atCall (kind : Kind) (port : AccessPath) (site : CallSite) (distance : UInt32)
    (names : SortedSet CanonicalName) (features : MayAlways) (fs : List Frame) : Frame where
  kind := kind
  port := port
  callee := some site.callee.signature
  callPosition := some site.position
  distance := distance
  origins := .unionOf origins fs
  fieldOrigins := .unionOf fieldOrigins fs
  inferred := features
  canonicalNames := names

/-- A frame at the call is below another frame when each of the frames that it was merged from is,
as far as they are merged. -/
theorem atCall_leq_iff {kind : Kind} {port : AccessPath} {site : CallSite} {d : UInt32}
    {names : SortedSet CanonicalName} {features : MayAlways} {fs : List Frame} {c : Frame} :
    (atCall kind port site d names features fs).leq c ↔
      c.distance ≤ d ∧ (∀ f ∈ fs, ∀ o, o ∈ f.origins → o ∈ c.origins) ∧
        (∀ f ∈ fs, ∀ o, o ∈ f.fieldOrigins → o ∈ c.fieldOrigins) ∧
        features.leq c.inferred ∧ ∀ n, n ∈ names → n ∈ c.canonicalNames := by
  simp only [leq_iff, atCall, SortedSet.not_mem_emptyCollection, MayAlways.bottom_leq,
    false_implies, implies_true, true_and]
  rw [SortedSet.forall_mem_unionOf, SortedSet.forall_mem_unionOf]

/-- Frames at the call differ in what was merged alone. -/
theorem atCall_leq_atCall_iff {kind : Kind} {port : AccessPath} {site : CallSite} {d d' : UInt32}
    {names names' : SortedSet CanonicalName} {features features' : MayAlways}
    {fs gs : List Frame} :
    (atCall kind port site d names features fs).leq
        (atCall kind port site d' names' features' gs) ↔
      d' ≤ d ∧ (∀ f ∈ fs, ∀ o, o ∈ f.origins → ∃ g ∈ gs, o ∈ g.origins) ∧
        (∀ f ∈ fs, ∀ o, o ∈ f.fieldOrigins → ∃ g ∈ gs, o ∈ g.fieldOrigins) ∧
        features.leq features' ∧ ∀ n, n ∈ names → n ∈ names' := by
  rw [atCall_leq_iff]
  simp only [atCall, SortedSet.mem_unionOf]

theorem merge?_eq (kind : Kind) (frames : List Frame) (site : CallSite)
    (constants : List (Option String)) :
    merge? kind frames site constants =
      ((frames.filter (·.crosses site)).map distance).min?.map fun nearest =>
        atCall kind site.port site (nearest + 1) ∅
          (joinAll ((frames.filter (·.crosses site)).map (·.contribution site constants)))
          (frames.filter (·.crosses site)) := by
  simp only [merge?, atCall, joinAll, unionOf, List.foldl_map]

/-- Whether a producer declaration has a frame behind the call. -/
def producesAt (site : CallSite) (f : Frame) : Bool :=
  f.crosses site && !(f.resolvedNames site).isEmpty

def producedAt (site : CallSite) (f : Frame) : Frame :=
  atCall f.kind (site.port.canonicalize site.callee) site 0 (f.resolvedNames site)
    (f.contribution site []) [f]

theorem crossProducer?_eq (f : Frame) (site : CallSite) :
    f.crossProducer? site = if f.producesAt site then some (f.producedAt site) else none := by
  have hjoin := MayAlways.joinAll_singleton (m := f.contribution site [])
  unfold crossProducer? producesAt
  rw [merge?_eq]
  cases hcross : f.crosses site with
  | false => simp [hcross]
  | true =>
      cases hnames : (f.resolvedNames site).isEmpty with
      | true => simp [hnames]
      | false => simp [hnames, hcross, hjoin, producedAt, atCall]

def producedAll (kind : Kind) (site : CallSite) (fs : List Frame) : Frame :=
  atCall kind (site.port.canonicalize site.callee) site 0
    (unionOf (·.resolvedNames site) fs)
    (joinAll (fs.map (·.contribution site []))) fs

theorem join_atCall {kind : Kind} {port : AccessPath} {site : CallSite}
    {names names' : SortedSet CanonicalName} {features features' : MayAlways}
    {fs gs : List Frame} :
    (atCall kind port site 0 names features fs).join (atCall kind port site 0 names' features' gs) =
      atCall kind port site 0 (names.union names') (features.join features') (fs ++ gs) := by
  simp only [join, atCall, SortedSet.unionOf_append]
  rfl

/-- Merging the frames of producers one after the other merges the producers. -/
theorem foldl_join_producedAt {kind : Kind} {site : CallSite} {fs gs : List Frame}
    (hgs : ∀ g ∈ gs, g.kind = kind) :
    (gs.map (·.producedAt site)).foldl join (producedAll kind site fs) =
      producedAll kind site (fs ++ gs) := by
  induction gs generalizing fs with
  | nil => simp
  | cons g gs ih =>
      have hkind := hgs g (by simp)
      have hstep : (producedAll kind site fs).join (g.producedAt site) =
          producedAll kind site (fs ++ [g]) := by
        rw [producedAll, producedAt, hkind, join_atCall, producedAll]
        simp only [SortedSet.unionOf_append, SortedSet.unionOf_singleton, joinAll,
          List.foldl_append, List.map_append]
        rfl
      rw [List.map_cons, List.foldl_cons, hstep, ih fun g' hg' => hgs g' (by simp [hg'])]
      simp

variable {f g : Frame} {site : CallSite}

theorem isProducerDeclaration_congr (h : g.key = f.key) :
    g.isProducerDeclaration = f.isProducerDeclaration := by
  have hport : g.port = f.port := congrArg FrameKey.port h
  have hcallee : g.callee = f.callee := congrArg FrameKey.callee h
  have hcrtex : g.isCrtex = f.isCrtex := congrArg FrameKey.isCrtex h
  simp only [isProducerDeclaration, isLeaf, hport, hcallee, hcrtex]

theorem crosses_iff : f.crosses site ↔ f.distance.toNat < site.maxDistance.toNat := by
  rw [crosses, decide_eq_true_eq, UInt32.lt_iff_toNat_lt]

/-- The count of calls does not overflow below the greatest distance. -/
theorem toNat_distance_add_one (h : f.crosses site) :
    (f.distance + 1).toNat = f.distance.toNat + 1 := by
  have hbelow := crosses_iff.1 h
  have hbound := site.maxDistance.toNat_lt
  rw [UInt32.toNat_add]
  show (f.distance.toNat + 1) % _ = _
  omega

/-- One more call does not change which of two frames is nearer. -/
theorem distance_add_one_le {near : UInt32} (hf : f.crosses site) (h : near ≤ f.distance) :
    near + 1 ≤ f.distance + 1 := by
  have hnear : ({ f with distance := near } : Frame).crosses site := by
    rw [crosses, decide_eq_true_eq] at hf ⊢
    exact UInt32.lt_of_le_of_lt h hf
  have hleft : (near + 1).toNat = near.toNat + 1 := toNat_distance_add_one hnear
  have hright : (f.distance + 1).toNat = f.distance.toNat + 1 := toNat_distance_add_one hf
  rw [UInt32.le_iff_toNat_le] at h ⊢
  omega

/-- The frame to which others are merged is one call farther than one of them that crosses. -/
theorem exists_nearest_of_merge? {kind : Kind} {fs : List Frame} {constants : List (Option String)}
    (h : merge? kind fs site constants = some g) : ∃ f ∈ fs, f.crosses site ∧
      g = atCall kind site.port site (f.distance + 1) ∅
        (joinAll ((fs.filter (·.crosses site)).map (·.contribution site constants)))
        (fs.filter (·.crosses site)) := by
  rw [merge?_eq] at h
  obtain ⟨nearest, hnearest, rfl⟩ := Option.map_eq_some_iff.1 h
  obtain ⟨hmem, -⟩ := List.min?_eq_some_iff.1 hnearest
  obtain ⟨f, hf, rfl⟩ := List.mem_map.1 hmem
  obtain ⟨hfs, hcrosses⟩ := List.mem_filter.1 hf
  exact ⟨f, hfs, hcrosses, rfl⟩

/-- A larger frame is nearer. -/
theorem crosses_mono (h : f.leq g) (hf : f.crosses site) : g.crosses site := by
  have hdistance := (leq_iff.1 h).1
  simp only [crosses, decide_eq_true_eq] at hf ⊢
  exact UInt32.lt_of_le_of_lt hdistance hf

theorem producesAt_iff :
    f.producesAt site ↔ f.crosses site ∧ ∃ n, n ∈ f.resolvedNames site := by
  rw [producesAt, Bool.and_eq_true, Bool.not_eq_true', ← Bool.not_eq_true, SortedSet.isEmpty_iff,
    Classical.not_forall_not]

/-- A larger frame that asks for the same types resolves as many names. -/
theorem mem_resolvedNames (h : f.leq g) (hagree : f.Agrees g) {n : CanonicalName}
    (hn : n ∈ f.resolvedNames site) : n ∈ g.resolvedNames site := by
  have hnames := (leq_iff.1 h).2.2.2.2.2.2.2.2.2
  have htypes : g.viaTypeFeatures site = f.viaTypeFeatures site := by
    rw [viaTypeFeatures, viaTypeFeatures, hagree.viaTypePorts]
  rw [resolvedNames, SortedSet.mem_ofList] at hn ⊢
  obtain ⟨name, hname, hresolved⟩ := List.mem_filterMap.1 hn
  exact List.mem_filterMap.2 ⟨name, hnames name hname, htypes ▸ hresolved⟩

theorem producesAt_mono (h : f.leq g) (hagree : f.Agrees g) (hf : f.producesAt site) :
    g.producesAt site := by
  rw [producesAt_iff] at hf ⊢
  obtain ⟨hcrosses, n, hn⟩ := hf
  exact ⟨crosses_mono h hcrosses, n, mem_resolvedNames h hagree hn⟩

/-- Each of the frames has a larger one in the other list. -/
def Covered (fs gs : List Frame) : Prop := ∀ f ∈ fs, ∃ g ∈ gs, f.leq g

namespace Covered

variable {fs gs : List Frame} (h : Covered fs gs) {constants : List (Option String)}
include h

theorem origins : ∀ f ∈ fs, ∀ o, o ∈ f.origins → ∃ g ∈ gs, o ∈ g.origins := by
  intro f hf o ho
  have hlarger := h f hf
  obtain ⟨g, hg, hle⟩ := hlarger
  exact ⟨g, hg, (leq_iff.1 hle).2.1 o ho⟩

theorem fieldOrigins : ∀ f ∈ fs, ∀ o, o ∈ f.fieldOrigins → ∃ g ∈ gs, o ∈ g.fieldOrigins := by
  intro f hf o ho
  have hlarger := h f hf
  obtain ⟨g, hg, hle⟩ := hlarger
  exact ⟨g, hg, (leq_iff.1 hle).2.2.1 o ho⟩

theorem may : ∀ m ∈ fs.map (·.contribution site constants), ∀ x, x ∈ m.may →
    ∃ n ∈ gs.map (·.contribution site constants), x ∈ n.may := by
  intro m hm x hx
  obtain ⟨f, hf, rfl⟩ := List.mem_map.1 hm
  have hlarger := h f hf
  obtain ⟨g, hg, hle⟩ := hlarger
  exact ⟨_, List.mem_map_of_mem hg, may_contribution_mono hle hx⟩

/-- The features of a larger list of frames are known of as many paths. -/
theorem known (hknown : Known (fs.map (·.contribution site constants))) :
    Known (gs.map (·.contribution site constants)) := by
  obtain ⟨m, hm, hsome⟩ := hknown
  obtain ⟨f, hf, rfl⟩ := List.mem_map.1 hm
  have hlarger := h f hf
  obtain ⟨g, hg, hle⟩ := hlarger
  have hsome' : (g.contribution site constants).isBottom = false := by
    rw [← Bool.not_eq_true] at hsome ⊢
    exact fun hbottom => hsome (isBottom_contribution_anti hle hbottom)
  exact ⟨_, List.mem_map_of_mem hg, hsome'⟩

end Covered
end Frame

namespace FrameKey

def ordinaryAt (site : CallSite) : FrameKey where
  port := site.port
  callee := some site.callee.signature
  fieldCallee := none
  callPosition := some site.position
  isCrtex := false

def producerAt (site : CallSite) : FrameKey where
  port := site.port.canonicalize site.callee
  callee := some site.callee.signature
  fieldCallee := none
  callPosition := some site.position
  isCrtex := true

theorem ordinaryAt_ne_producerAt (site : CallSite) : ordinaryAt site ≠ producerAt site :=
  fun h => Bool.false_ne_true (congrArg isCrtex h)

end FrameKey

theorem Frame.key_of_merge? {kind : Kind} {fs : List Frame} {site : CallSite}
    {constants : List (Option String)} {f : Frame}
    (h : merge? kind fs site constants = some f) : f.key = .ordinaryAt site := by
  obtain ⟨nearest, -, rfl⟩ := Option.map_eq_some_iff.1 h
  rfl

namespace FrameSet
open FrameKey

def crossingOrdinary (s : FrameSet) (site : CallSite) : List Frame :=
  s.ordinary.filter (·.crosses site)

def crossingProducers (s : FrameSet) (site : CallSite) : List Frame :=
  s.producers.filter (·.producesAt site)

variable {s t : FrameSet} {site : CallSite} {key : FrameKey}

theorem mem_crossingOrdinary {f : Frame} : f ∈ s.crossingOrdinary site ↔
    f ∈ s.toList ∧ f.isProducerDeclaration = false ∧ f.crosses site := by
  simp only [crossingOrdinary, ordinary, List.mem_filter, Bool.not_eq_true', and_assoc]

theorem mem_crossingProducers {f : Frame} : f ∈ s.crossingProducers site ↔
    f ∈ s.toList ∧ f.isProducerDeclaration ∧ f.producesAt site := by
  simp only [crossingProducers, producers, List.mem_filter, and_assoc]

theorem filterMap_crossProducer? : s.producers.filterMap (·.crossProducer? site) =
    (s.crossingProducers site).map (·.producedAt site) := by
  simp only [Frame.crossProducer?_eq, crossingProducers]
  generalize s.producers = fs
  induction fs with
  | nil => rfl
  | cons f fs ih =>
      rw [List.filterMap_cons, List.filter_cons]
      split <;> simp_all

theorem key_producedAt {f : Frame} (h : f.producesAt site) :
    (f.producedAt site).key = producerAt site := by
  have hcrtex : (f.producedAt site).isCrtex = true := (Bool.and_eq_true _ _ ▸ h).2
  simp only [Frame.key, hcrtex]
  rfl

/-- The producers that cross are merged to one frame, if there are any. -/
theorem gather_producedAt (hs : s.Valid) :
    ((s.crossingProducers site).map (·.producedAt site)).foldl Grouped.gather none =
      if s.crossingProducers site = [] then none
      else some (Frame.producedAll s.kind site (s.crossingProducers site)) := by
  have hkind : ∀ f ∈ s.crossingProducers site, f.kind = s.kind := fun f hf =>
    hs.2 f (mem_crossingProducers.1 hf).1
  cases hcrossing : s.crossingProducers site with
  | nil => rfl
  | cons f fs =>
      rw [hcrossing] at hkind
      have hfirst : f.producedAt site = Frame.producedAll s.kind site [f] := by
        rw [Frame.producedAll, SortedSet.unionOf_singleton, Frame.producedAt, hkind f (by simp)]
        congr
        exact MayAlways.joinAll_singleton.symm
      have hfold : (fs.map (·.producedAt site)).foldl Frame.join
          (Frame.producedAll s.kind site [f]) = Frame.producedAll s.kind site (f :: fs) :=
        Frame.foldl_join_producedAt fun g hg => hkind g (List.mem_cons_of_mem f hg)
      rw [← hfirst] at hfold
      rw [List.map_cons, List.foldl_cons, Grouped.gather, Option.elim_none,
        Grouped.foldl_gather_some, if_neg (List.cons_ne_nil f fs)]
      exact congrArg some hfold

/-- What stands under each key behind a call. -/
theorem get?_propagate (hs : s.Valid) (key : FrameKey) : (s.propagate site).get? key =
    if key = producerAt site then
      if s.crossingProducers site = [] then none
      else some (Frame.producedAll s.kind site (s.crossingProducers site))
    else if key = ordinaryAt site then Frame.merge? s.kind s.ordinary site site.constants
    else none := by
  have hproducers : ∀ f ∈ (s.crossingProducers site).map (·.producedAt site),
      AbstractDomain.isBottom f = false ∧ Grouping.groupKey f = producerAt site := by
    intro f hf
    obtain ⟨g, hg, rfl⟩ := List.mem_map.1 hf
    exact ⟨rfl, key_producedAt (mem_crossingProducers.1 hg).2.2⟩
  have hmerged : ∀ f ∈ (Frame.merge? s.kind s.ordinary site site.constants).toList,
      AbstractDomain.isBottom f = false ∧ Grouping.groupKey f = ordinaryAt site :=
    fun f hf => ⟨rfl, Frame.key_of_merge? (Option.mem_toList.1 hf)⟩
  change (Grouped.ofList _).get? key = _
  rw [Grouped.get?_ofList, filterMap_crossProducer?, List.filter_append,
    Grouped.filter_landsAt hproducers, Grouped.filter_landsAt hmerged]
  by_cases hp : key = producerAt site
  · have ho : key ≠ ordinaryAt site := fun ho => ordinaryAt_ne_producerAt site (ho.symm.trans hp)
    rw [if_pos hp, if_neg ho, if_pos hp, List.append_nil, gather_producedAt hs]
  · rw [if_neg hp, if_neg hp, List.nil_append]
    split
    · cases Frame.merge? s.kind s.ordinary site site.constants <;> rfl
    · rfl

end FrameSet
end TaintFlow
