import TaintFlow.Proofs.Propagation.Order

/-!
# What is certain behind a call

A feature always holds on the ordinary frame behind a call when it is certain of every ordinary
frame that crosses and tells of its path at all. A frame that was declared without any feature is a
path on which nothing always holds, but its features are bottom, not empty, and the join over all
paths passes over bottom. So a feature may be certain behind the call that is not certain of such a
frame, and what is certain of every single frame is exactly what always holds behind the call only
as long as no featureless frame crosses, or nothing is certain of the others.
-/
namespace TaintFlow

namespace MayAlways

variable {ms : List MayAlways} {x : Feature}

/-- What always holds on each of some paths is certain of them. -/
theorem certain_of_forall_mem_always (hms : ms ≠ []) (hx : ∀ m ∈ ms, x ∈ m.always) :
    Certain ms x := by
  obtain ⟨m, hm⟩ := List.exists_mem_of_ne_nil ms hms
  exact ⟨⟨m, hm, isBottom_of_mem_always (hx m hm)⟩, fun m hm _ => hx m hm⟩

/-- Paths of which nothing is known are passed over. That makes a difference when there is such a
path and something is certain of the others. -/
theorem certain_iff_forall_iff (hms : ms ≠ []) :
    (∀ x, Certain ms x ↔ ∀ m ∈ ms, x ∈ m.always) ↔
      (∀ m ∈ ms, m.isBottom = false) ∨ ∀ x, ¬ Certain ms x := by
  constructor
  · intro hall
    by_cases hcertain : ∃ x, Certain ms x
    · obtain ⟨x, hx⟩ := hcertain
      left
      intro m hm
      exact isBottom_of_mem_always ((hall x).1 hx m hm)
    · right
      intro x hx
      exact hcertain ⟨x, hx⟩
  · intro heither x
    refine ⟨fun hx m hm => ?_, certain_of_forall_mem_always hms⟩
    rcases heither with hknown | hnothing
    · exact hx.2 m hm (hknown m hm)
    · exact absurd hx (hnothing x)

end MayAlways

namespace FrameSet
open FrameKey MayAlways

variable {s : FrameSet} {site : CallSite}

/-- There is an ordinary frame behind the call as soon as one in front of it crosses. -/
theorem exists_get?_ordinaryAt (hs : s.Valid) (hcross : s.crossingOrdinary site ≠ []) :
    ∃ f, (s.propagate site).get? (ordinaryAt site) = some f ∧
      f.inferred = joinAll (s.ordinaryFeatures site) := by
  have hsome : ((s.ordinary.filter (·.crosses site)).map Frame.distance).min? ≠ none :=
    fun hnone => hcross (List.map_eq_nil_iff.1 (List.min?_eq_none_iff.1 hnone))
  obtain ⟨near, hnear⟩ := Option.ne_none_iff_exists'.1 hsome
  rw [get?_propagate hs, if_neg (ordinaryAt_ne_producerAt site), if_pos rfl, Frame.merge?_eq, hnear]
  exact ⟨_, rfl, rfl⟩

/-- A valid set crosses the call without a fault, and if some of its ordinary frames cross there is
an ordinary frame behind it. What always holds there is what is certain of the frames that cross,
those of which nothing is known set aside. It is what always holds on each of them exactly when
something is known of each, or nothing is certain. -/
theorem mem_always_propagate_iff (hs : s.Valid) (hcross : s.crossingOrdinary site ≠ [])
    (c : Context) : ∃ p f, (outcome [s] site (s.propagate site) c).1 = .ok p ∧
      p.get? (ordinaryAt site) = some f ∧
      (∀ x, x ∈ f.inferred.always ↔ Certain (s.ordinaryFeatures site) x) ∧
      ((∀ x, x ∈ f.inferred.always ↔ ∀ g ∈ s.crossingOrdinary site,
          x ∈ (g.contribution site site.constants).always) ↔
        (∀ g ∈ s.crossingOrdinary site, (g.contribution site site.constants).isBottom = false) ∨
          ∀ x, ¬ Certain (s.ordinaryFeatures site) x) := by
  obtain ⟨f, hget, hfeatures⟩ := exists_get?_ordinaryAt hs hcross
  have halways (x : Feature) :
      x ∈ f.inferred.always ↔ Certain (s.ordinaryFeatures site) x := by
    rw [hfeatures, mem_always_joinAll]
  have hne : s.ordinaryFeatures site ≠ [] := fun hnil => hcross (List.map_eq_nil_iff.1 hnil)
  have hexact := certain_iff_forall_iff hne
  simp only [ordinaryFeatures, List.forall_mem_map] at hexact
  refine ⟨s.propagate site, f, ?_, hget, halways, ?_⟩
  · rw [outcome_of_valid fun t ht => List.mem_singleton.1 ht ▸ hs]
  · simp only [halways]
    exact hexact

/-- Of two frames that share one of their features, the shared one is certain behind the call. -/
theorem mem_always_propagate_of_shared :
    let s : FrameSet := ⟨⟨"Source"⟩, .ofList [.sample,
      { Frame.declared ⟨"Source"⟩ (.ofRoot .leaf) with
        inferred := .ofAlways (.ofList [⟨"declared"⟩, ⟨"seen"⟩]) }]⟩
    s.Valid ∧ s.crossingOrdinary .sample ≠ [] ∧
      ∃ f, (s.propagate .sample).get? (ordinaryAt .sample) = some f ∧
        (∀ x, x ∈ f.inferred.always ↔ ∀ g ∈ s.crossingOrdinary .sample,
          x ∈ (g.contribution .sample CallSite.sample.constants).always) ∧
        ⟨"seen"⟩ ∈ f.inferred.always ∧ ⟨"declared"⟩ ∉ f.inferred.always := by
  intro s
  have hbuilt : ofList ⟨"Source"⟩ s.toList = .ok s := by rfl
  have hs : s.Valid := valid_ofList hbuilt
  have hcross : s.crossingOrdinary .sample ≠ [] := by decide
  obtain ⟨p, f, hp, hget, hcertain, hexact⟩ :=
    mem_always_propagate_iff hs hcross ⟨.ofPreset .fast, []⟩
  rw [outcome_of_valid fun t ht => List.mem_singleton.1 ht ▸ hs] at hp
  cases hp
  have hall := hexact.2 (.inl (by decide))
  refine ⟨hs, hcross, f, hget, hall, (hall _).2 (by decide), fun hmem => ?_⟩
  exact absurd ((hall _).1 hmem) (by decide)

/-- A feature is certain behind the call although a frame that crosses has no features at all. -/
theorem mem_always_propagate_of_featureless :
    ∃ (s : FrameSet) (f : Frame) (x : Feature), s.Valid ∧ s.crossingOrdinary .sample ≠ [] ∧
      (s.propagate .sample).get? (ordinaryAt .sample) = some f ∧ x ∈ f.inferred.always ∧
      ¬ ∀ g ∈ s.crossingOrdinary .sample,
        x ∈ (g.contribution .sample CallSite.sample.constants).always := by
  let s : FrameSet := ⟨⟨"Source"⟩, .ofList [.sample, .declared ⟨"Source"⟩ (.ofRoot .leaf)]⟩
  have hbuilt : ofList ⟨"Source"⟩ s.toList = .ok s := by rfl
  have hs : s.Valid := valid_ofList hbuilt
  have hcross : s.crossingOrdinary .sample ≠ [] := by decide
  obtain ⟨f, hget, hfeatures⟩ := exists_get?_ordinaryAt hs hcross
  refine ⟨s, f, ⟨"seen"⟩, hs, hcross, hget, ?_, by decide⟩
  rw [hfeatures]
  decide

end FrameSet
end TaintFlow
