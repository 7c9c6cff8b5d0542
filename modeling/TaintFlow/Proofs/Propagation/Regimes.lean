import TaintFlow.Proofs.Propagation.Order

/-!
# The two regimes of a call

Producer declarations and all other frames cross a call apart from each other. What producers leave
stands under one key behind the call, what the others leave under a second one, and the two keys
differ in whether there are canonical names. So either part of a set can be taken away without a
trace in what the other part leaves.

A producer leaves a frame when it crosses and one of its names can be resolved for the callee and
the types that this producer asked for. Constants observed at the call are of no use to producers.
-/
namespace TaintFlow
open MayAlways (joinAll)

namespace FrameSet
open FrameKey

variable {s : FrameSet} {site : CallSite} {extra : MayAlways} {f : Frame}

/-- Behind a call the key of a frame is known from whether it has canonical names. -/
theorem key_eq_of_mem_propagateWith (hs : s.Valid)
    (hf : f ∈ (s.propagateWith extra site).toList) :
    f.key = if f.isCrtex then producerAt site else ordinaryAt site := by
  have hget : (s.propagateWith extra site).get? f.key = some f :=
    (valid_iff.1 (valid_propagateWith hs site extra)).get?_groupKey hf
  rw [get?_propagateWith hs, get?_propagate hs] at hget
  by_cases hproducer : f.key = producerAt site
  · have hcrtex : f.isCrtex = true := congrArg isCrtex hproducer
    rw [if_pos hcrtex, hproducer]
  · rw [if_neg hproducer] at hget
    by_cases hordinary : f.key = ordinaryAt site
    · have hcrtex : f.isCrtex = false := congrArg isCrtex hordinary
      rw [hcrtex, if_neg Bool.false_ne_true, hordinary]
    · rw [if_neg hordinary] at hget
      cases hget

/-- At most one frame behind a call has canonical names, and at most one has none. -/
theorem filter_isCrtex_propagateWith (hs : s.Valid) (extra : MayAlways) (site : CallSite)
    (crtex : Bool) :
    (s.propagateWith extra site).toList.filter (·.isCrtex == crtex) =
      ((s.propagateWith extra site).get?
        (if crtex then producerAt site else ordinaryAt site)).toList := by
  have hvalid := valid_propagateWith hs site extra
  refine Eq.trans ?_ (hvalid.1.filter_landsAt _)
  refine List.filter_congr fun f hf => ?_
  have hkey : Grouping.groupKey f = if f.isCrtex then producerAt site else ordinaryAt site :=
    key_eq_of_mem_propagateWith hs hf
  have hne := ordinaryAt_ne_producerAt site
  rw [Bool.eq_iff_iff, Grouped.landsAt_iff, hkey, beq_iff_eq]
  refine Iff.trans ?_ (and_iff_right rfl).symm
  cases f.isCrtex <;> cases crtex <;> simp [hne, hne.symm]

theorem propagateWith_bottom (s : FrameSet) (site : CallSite) :
    s.propagateWith .bottom site = s.propagate site := rfl

/-- The frame that the producers leave behind the call, if any of them leaves one. -/
theorem filter_isCrtex_propagate (hs : s.Valid) (site : CallSite) :
    (s.propagate site).toList.filter (·.isCrtex) =
      if s.crossingProducers site = [] then []
      else [Frame.producedAll s.kind site (s.crossingProducers site)] := by
  have hkey := filter_isCrtex_propagateWith hs .bottom site true
  simp only [propagateWith_bottom, beq_true, if_true, get?_propagate hs] at hkey
  rw [hkey]
  split <;> rfl

/-- The frame that all others leave behind the call, if any of them crosses. -/
theorem filter_not_isCrtex_propagate (hs : s.Valid) (site : CallSite) :
    (s.propagate site).toList.filter (!·.isCrtex) =
      (Frame.merge? s.kind s.ordinary site site.constants).toList := by
  have hkey := filter_isCrtex_propagateWith hs .bottom site false
  simp only [propagateWith_bottom, beq_false, Bool.false_eq_true, if_false, get?_propagate hs,
    if_neg (ordinaryAt_ne_producerAt site), if_true] at hkey
  exact hkey

end FrameSet

namespace Frame

variable {f g : Frame} {site : CallSite} {n : CanonicalName}

/-- One of the frame's names is resolved to `n`, with the types that this frame asks for. -/
def Resolves (site : CallSite) (f : Frame) (n : CanonicalName) : Prop :=
  ∃ name, name ∈ f.canonicalNames ∧
    name.instantiate site.callee.signature (f.viaTypeFeatures site) = some n

/-- The frame is a producer declaration that crosses the call and resolves a name there. -/
structure Qualifies (site : CallSite) (f : Frame) : Prop where
  declared : f.isProducerDeclaration
  crosses : f.crosses site
  resolves : ∃ n, f.Resolves site n

theorem mem_resolvedNames_iff : n ∈ f.resolvedNames site ↔ f.Resolves site n := by
  rw [resolvedNames, SortedSet.mem_ofList, List.mem_filterMap]
  rfl

theorem qualifies_iff : f.Qualifies site ↔ f.isProducerDeclaration ∧ f.producesAt site := by
  rw [producesAt_iff]
  simp only [mem_resolvedNames_iff]
  exact ⟨fun h => ⟨h.declared, h.crosses, h.resolves⟩, fun h => ⟨h.1, h.2.1, h.2.2⟩⟩

theorem Resolves.isTemplate_eq_false (h : f.Resolves site n) : n.isTemplate = false := by
  obtain ⟨name, -, hresolved⟩ := h
  cases name with
  | instantiated t => cases hresolved
  | template t =>
      obtain ⟨cs, -, hresolved⟩ := Option.bind_eq_some_iff.1 hresolved
      split at hresolved
      · cases hresolved
      · cases hresolved
        rfl

theorem mem_may_joinAll_map (features : Frame → MayAlways) {fs : List Frame} {x : Feature} :
    x ∈ (joinAll (fs.map features)).may ↔ ∃ f ∈ fs, x ∈ (features f).may := by
  rw [MayAlways.mem_may_joinAll]
  constructor
  · intro hfound
    obtain ⟨m, hm, hx⟩ := hfound
    obtain ⟨f, hf, rfl⟩ := List.mem_map.1 hm
    exact ⟨f, hf, hx⟩
  · intro hfound
    obtain ⟨f, hf, hx⟩ := hfound
    exact ⟨features f, List.mem_map_of_mem hf, hx⟩

theorem viaValueFeatures_nil (f : Frame) : f.viaValueFeatures [] = [] := by
  refine List.filterMap_eq_nil_iff.2 fun port _ => ?_
  cases port <;> rfl

/-- Where no constant is observed, types alone are added to the features. -/
theorem mem_may_contribution_nil {x : Feature} : x ∈ (f.contribution site []).may ↔
    x ∈ f.features.may ∨ x ∈ f.viaTypeFeatures site := by
  rw [contribution, viaValueFeatures_nil, MayAlways.mem_may_addAllAlways,
    MayAlways.mem_may_addAllAlways, or_iff_left List.not_mem_nil]

/-- What is found of the frame that the producers among `fs` leave behind the call. -/
structure IsProduced (site : CallSite) (fs : List Frame) (g : Frame) : Prop where
  distance : g.distance = 0
  callee : g.callee = some site.callee.signature
  callPosition : g.callPosition = some site.position
  port : g.port = site.port.canonicalize site.callee
  isTemplate_eq_false (n : CanonicalName) : n ∈ g.canonicalNames → n.isTemplate = false
  /-- Types are turned into features, and values are not. -/
  mem_may (x : Feature) : x ∈ g.inferred.may ↔
    ∃ f ∈ fs, f.Qualifies site ∧ (x ∈ f.features.may ∨ x ∈ f.viaTypeFeatures site)

/-- A declaration that is matched across artifacts under the name of the callee. -/
def sampleProducer : Frame :=
  { declared ⟨"Source"⟩ (.ofRoot .anchor) with
    canonicalNames := .ofList [.template "%programmatic_leaf_name%"] }

end Frame

namespace FrameSet

variable {s : FrameSet} {site : CallSite}

/-- Let the frames of one kind cross a call by themselves. -/
def cross (s : FrameSet) (site : CallSite) (c : Context) : Except Fault FrameSet × Context :=
  outcome [s] site (s.propagate site) c

theorem cross_of_valid (hs : s.Valid) (site : CallSite) (c : Context) :
    (s.cross site c).1 = .ok (s.propagate site) := by
  rw [cross, outcome_of_valid fun t ht => List.mem_singleton.1 ht ▸ hs]

theorem producers_filter_producers (s : FrameSet) :
    (s.filter (·.isProducerDeclaration)).producers = s.producers := by
  rw [producers, toList_filter, List.filter_filter, producers]
  simp only [Bool.and_self]

theorem producers_filter_others (s : FrameSet) :
    (s.filter (!·.isProducerDeclaration)).producers = [] := by
  rw [producers, toList_filter, List.filter_filter]
  simp

theorem ordinary_filter_others (s : FrameSet) :
    (s.filter (!·.isProducerDeclaration)).ordinary = s.ordinary := by
  rw [ordinary, toList_filter, List.filter_filter, ordinary]
  simp only [Bool.and_self]

theorem ordinary_filter_producers (s : FrameSet) :
    (s.filter (·.isProducerDeclaration)).ordinary = [] := by
  rw [ordinary, toList_filter, List.filter_filter]
  simp

theorem mem_crossingProducers_iff {f : Frame} :
    f ∈ s.crossingProducers site ↔ f ∈ s.toList ∧ f.Qualifies site := by
  rw [mem_crossingProducers, Frame.qualifies_iff]

/-- The frame with canonical names behind a call is that of all producers which leave one. -/
theorem mem_propagate_of_isCrtex (hs : s.Valid) {g : Frame} :
    g ∈ (s.propagate site).toList ∧ g.isCrtex ↔ s.crossingProducers site ≠ [] ∧
      g = Frame.producedAll s.kind site (s.crossingProducers site) := by
  rw [← List.mem_filter, filter_isCrtex_propagate hs]
  split
  · rename_i hnone
    simp [hnone]
  · rename_i hsome
    simp [hsome]

theorem crossingProducers_ne_nil :
    s.crossingProducers site ≠ [] ↔ ∃ f ∈ s.toList, f.Qualifies site := by
  simp only [← mem_crossingProducers_iff]
  exact ⟨List.exists_mem_of_ne_nil _, fun ⟨_, hf⟩ => List.ne_nil_of_mem hf⟩

theorem mem_canonicalNames_producedAll {n : CanonicalName} :
    n ∈ (Frame.producedAll s.kind site (s.crossingProducers site)).canonicalNames ↔
      ∃ f ∈ s.toList, f.Qualifies site ∧ f.Resolves site n := by
  refine SortedSet.mem_unionOf.trans ?_
  simp only [mem_crossingProducers_iff, Frame.mem_resolvedNames_iff, and_assoc]

theorem isProduced (hs : s.Valid) {g : Frame} (hg : g ∈ (s.propagate site).toList)
    (hcrtex : g.isCrtex) : g.IsProduced site s.toList := by
  obtain ⟨-, rfl⟩ := (mem_propagate_of_isCrtex hs).1 ⟨hg, hcrtex⟩
  refine ⟨rfl, rfl, rfl, rfl, fun n hn => ?_, fun x => ?_⟩
  · obtain ⟨f, -, -, hresolves⟩ := mem_canonicalNames_producedAll.1 hn
    exact hresolves.isTemplate_eq_false
  · refine (Frame.mem_may_joinAll_map (fun f => f.contribution site [])).trans ?_
    simp only [mem_crossingProducers_iff, Frame.mem_may_contribution_nil, and_assoc]

theorem exists_isCrtex_iff (hs : s.Valid) : (∃ g ∈ (s.propagate site).toList, g.isCrtex) ↔
    ∃ f ∈ s.toList, f.Qualifies site := by
  simp only [mem_propagate_of_isCrtex hs, exists_and_left, exists_eq, and_true,
    crossingProducers_ne_nil]

theorem exists_mem_canonicalNames_iff (hs : s.Valid) {n : CanonicalName} :
    (∃ g ∈ (s.propagate site).toList, n ∈ g.canonicalNames) ↔
      ∃ f ∈ s.toList, f.Qualifies site ∧ f.Resolves site n := by
  constructor
  · intro hfound
    obtain ⟨g, hg, hn⟩ := hfound
    have hcrtex : g.isCrtex = true := by
      rw [Frame.isCrtex, Bool.not_eq_true', ← Bool.not_eq_true, SortedSet.isEmpty_iff]
      exact fun hnone => hnone n hn
    obtain ⟨-, rfl⟩ := (mem_propagate_of_isCrtex hs).1 ⟨hg, hcrtex⟩
    exact mem_canonicalNames_producedAll.1 hn
  · intro hfound
    have hsome : s.crossingProducers site ≠ [] := by
      obtain ⟨f, hf, hqualifies, -⟩ := hfound
      exact crossingProducers_ne_nil.2 ⟨f, hf, hqualifies⟩
    exact ⟨_, ((mem_propagate_of_isCrtex hs).2 ⟨hsome, rfl⟩).1,
      mem_canonicalNames_producedAll.2 hfound⟩

/-- Without the producers nothing is left behind the call but the ordinary frame. -/
theorem toList_propagate_others (hs : s.Valid) :
    ((s.filter (!·.isProducerDeclaration)).propagate site).toList =
      (s.propagate site).toList.filter (!·.isCrtex) := by
  have hothers := valid_filter hs (!·.isProducerDeclaration)
  have hnone := filter_isCrtex_propagate hothers site
  rw [crossingProducers, producers_filter_others, if_pos List.filter_nil,
    List.filter_eq_nil_iff] at hnone
  have hself := filter_not_isCrtex_propagate hothers site
  rw [ordinary_filter_others, List.filter_eq_self.2 fun f hf => by simpa using hnone f hf] at hself
  rw [filter_not_isCrtex_propagate hs]
  exact hself

/-- Without the others nothing is left but the frame of the producers. -/
theorem toList_propagate_producers (hs : s.Valid) :
    ((s.filter (·.isProducerDeclaration)).propagate site).toList =
      (s.propagate site).toList.filter (·.isCrtex) := by
  have hproducers := valid_filter hs (·.isProducerDeclaration)
  have hnone := filter_not_isCrtex_propagate hproducers site
  rw [ordinary_filter_producers] at hnone
  have hself := filter_isCrtex_propagate hproducers site
  rw [List.filter_eq_self.2 fun f hf => by simpa using List.filter_eq_nil_iff.1 hnone f hf,
    crossingProducers, producers_filter_producers] at hself
  rw [filter_isCrtex_propagate hs]
  exact hself

/-- Producers and all other frames cross a call without regard to each other. -/
theorem cross_regimes (hs : s.Valid) (site : CallSite) (c : Context) :
    ∃ p, (s.cross site c).1 = .ok p ∧
      ((∃ g ∈ p.toList, g.isCrtex) ↔ ∃ f ∈ s.toList, f.Qualifies site) ∧
      (∀ g ∈ p.toList, g.isCrtex → g.IsProduced site s.toList) ∧
      (∀ n, (∃ g ∈ p.toList, n ∈ g.canonicalNames) ↔
        ∃ f ∈ s.toList, f.Qualifies site ∧ f.Resolves site n) ∧
      (∀ constants, ∃ q, (s.cross { site with constants } c).1 = .ok q ∧
        q.toList.filter (·.isCrtex) = p.toList.filter (·.isCrtex)) ∧
      (∃ q, ((s.filter (!·.isProducerDeclaration)).cross site c).1 = .ok q ∧
        q.toList = p.toList.filter (!·.isCrtex)) ∧
      ∃ q, ((s.filter (·.isProducerDeclaration)).cross site c).1 = .ok q ∧
        q.toList = p.toList.filter (·.isCrtex) := by
  have hothers := valid_filter hs (!·.isProducerDeclaration)
  have hproducers := valid_filter hs (·.isProducerDeclaration)
  refine ⟨s.propagate site, cross_of_valid hs site c, exists_isCrtex_iff hs,
    fun g => isProduced hs, fun n => exists_mem_canonicalNames_iff hs, fun constants => ?_, ?_, ?_⟩
  · refine ⟨_, cross_of_valid hs _ c, ?_⟩
    rw [filter_isCrtex_propagate hs, filter_isCrtex_propagate hs]
    rfl
  · exact ⟨_, cross_of_valid hothers site c, toList_propagate_others hs⟩
  · exact ⟨_, cross_of_valid hproducers site c, toList_propagate_producers hs⟩

/-- A producer that is named after the callee leaves a frame with the callee's name, beside the frame
that came through another call. -/
theorem cross_of_producer :
    let s : FrameSet := ⟨⟨"Source"⟩, .ofList [.sample, .sampleProducer]⟩
    s.Valid ∧ ∃ p, (s.cross .sample ⟨.ofPreset .fast, []⟩).1 = .ok p ∧
      (∃ g ∈ p.toList, g.isCrtex) ∧
      ∃ g ∈ p.toList, .instantiated "LParser;.parse:(I)V" ∈ g.canonicalNames := by
  intro s
  have hbuilt : ofList ⟨"Source"⟩ s.toList = .ok s := by rfl
  have hs : s.Valid := valid_ofList hbuilt
  obtain ⟨p, hp, hcrtex, -, hnames, -⟩ := cross_regimes hs .sample ⟨.ofPreset .fast, []⟩
  have hmem : .sampleProducer ∈ s.toList := by decide
  have hresolves : Frame.sampleProducer.Resolves .sample (.instantiated "LParser;.parse:(I)V") :=
    Frame.mem_resolvedNames_iff.1 (by decide)
  have hqualifies : Frame.sampleProducer.Qualifies .sample := ⟨by decide, by decide, _, hresolves⟩
  exact ⟨hs, p, hp, hcrtex.2 ⟨_, hmem, hqualifies⟩, (hnames _).2 ⟨_, hmem, hqualifies, hresolves⟩⟩

end FrameSet
end TaintFlow
