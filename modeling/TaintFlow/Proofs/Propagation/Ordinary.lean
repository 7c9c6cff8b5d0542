import TaintFlow.Proofs.Propagation.Regimes

/-!
# The frame to which a kind is merged

All frames of a kind that are no producer declarations and cross a call leave one frame behind it,
and if none crosses they leave none. It is one call farther than the nearest of them. It has the
origins of all and may have the features of all, those that their ports ask for and that are observed
at the call, and those of the call instruction, which are certain of it where they are certain of the
instruction. Whatever else the frames carry stays in front of the call.
-/
namespace TaintFlow
open MayAlways (behind joinAll)

/-- Some port is a parameter within the bounds of what was observed, and `x` is the feature of what
was observed of that parameter. -/
def Root.Observes {α : Type} (ports : SortedSet Root) (observations : List α) (feature : α → Feature)
    (x : Feature) : Prop :=
  ∃ i, .argument i ∈ ports ∧ ∃ h : i.toNat < observations.length,
    feature (observations.get ⟨i.toNat, h⟩) = x

theorem Root.mem_filterMap_observed {α : Type} {ports : SortedSet Root} {observations : List α}
    {feature : α → Feature} {x : Feature} :
    x ∈ ports.toList.filterMap (fun port => (port.observed? observations).map feature) ↔
      Observes ports observations feature x := by
  simp only [List.mem_filterMap, Option.map_eq_some_iff, observed?, Option.bind_eq_some_iff,
    List.getElem?_eq_some_iff, SortedSet.mem_toList]
  constructor
  · intro hfound
    obtain ⟨port, hport, a, ⟨i, hi, h, rfl⟩, rfl⟩ := hfound
    cases port <;> cases hi
    exact ⟨i, hport, h, rfl⟩
  · intro hfound
    obtain ⟨i, hport, h, rfl⟩ := hfound
    exact ⟨.argument i, hport, _, ⟨i, rfl, h, rfl⟩, rfl⟩

namespace Frame

variable {f : Frame} {site : CallSite} {x : Feature}

/-- The frame `g` is what the frames `fs` are merged to at the call, whose instruction has the
features `extra`. -/
structure IsMerged (site : CallSite) (extra : MayAlways) (fs : List Frame) (g : Frame) : Prop where
  distance : ∃ f ∈ fs, (∀ h ∈ fs, f.distance.toNat ≤ h.distance.toNat) ∧
    g.distance.toNat = f.distance.toNat + 1
  distance_le : g.distance.toNat ≤ site.maxDistance.toNat
  mem_origins (o : Signature) : o ∈ g.origins ↔ ∃ f ∈ fs, o ∈ f.origins
  mem_fieldOrigins (o : Field) : o ∈ g.fieldOrigins ↔ ∃ f ∈ fs, o ∈ f.fieldOrigins
  mem_may (x : Feature) : x ∈ g.inferred.may ↔
    (∃ f ∈ fs, x ∈ f.features.may ∨
      Root.Observes f.viaTypePorts site.registerTypes viaTypeFeature x ∨
      Root.Observes f.viaValuePorts site.constants viaValueFeature x) ∨ x ∈ extra.may
  mem_always (x : Feature) : x ∈ extra.always → x ∈ g.inferred.always
  callee : g.callee = some site.callee.signature
  port : g.port = site.port
  callPosition : g.callPosition = some site.position
  fieldCallee : g.fieldCallee = none
  locallyInferred : g.locallyInferred = .bottom
  userFeatures : g.userFeatures = ∅
  viaTypePorts : g.viaTypePorts = ∅
  viaValuePorts : g.viaValuePorts = ∅
  localPositions : g.localPositions = ∅
  canonicalNames : g.canonicalNames = ∅

/-- What may hold on the path of one frame behind the call. -/
theorem mem_may_contribution_iff {constants : List (Option String)} :
    x ∈ (f.contribution site constants).may ↔ x ∈ f.features.may ∨
      Root.Observes f.viaTypePorts site.registerTypes viaTypeFeature x ∨
      Root.Observes f.viaValuePorts constants viaValueFeature x := by
  rw [contribution, MayAlways.mem_may_addAllAlways, MayAlways.mem_may_addAllAlways, viaTypeFeatures,
    viaValueFeatures, Root.mem_filterMap_observed, Root.mem_filterMap_observed, or_assoc]

end Frame

namespace MayAlways

variable {extra m : MayAlways} {x : Feature}

/-- Nothing that is certain of the instruction is lost when the instruction is taken for one without
features. -/
theorem mem_always_behind_of_wellFormed (hextra : extra.WellFormed) (hx : x ∈ extra.always) :
    x ∈ (behind extra m).always := by
  refine mem_always_behind.2 (.inr ⟨?_, hx⟩)
  rw [← Bool.not_eq_true]
  intro hnone
  cases extra with
  | bottom => exact SortedSet.not_mem_emptyCollection x hx
  | sets may always => exact not_mem_may_of_isEmpty hnone (hextra x hx)

end MayAlways

namespace FrameSet
open FrameKey

variable {s : FrameSet} {site : CallSite} {extra : MayAlways}

theorem get?_ordinaryAt_eq_none_iff (hs : s.Valid) :
    (s.propagateWith extra site).get? (ordinaryAt site) = none ↔ s.crossingOrdinary site = [] := by
  rw [get?_ordinaryAt hs, Option.map_eq_none_iff, List.min?_eq_none_iff, List.map_eq_nil_iff]

theorem isMerged_of_get? (hs : s.Valid) (hextra : extra.WellFormed) {g : Frame}
    (hg : (s.propagateWith extra site).get? (ordinaryAt site) = some g) :
    g.IsMerged site extra (s.crossingOrdinary site) := by
  rw [get?_ordinaryAt hs] at hg
  obtain ⟨near, hnear, rfl⟩ := Option.map_eq_some_iff.1 hg
  obtain ⟨hmem, hleast⟩ := List.min?_eq_some_iff.1 hnear
  obtain ⟨f, hf, rfl⟩ := List.mem_map.1 hmem
  have hcrosses : f.crosses site := (mem_crossingOrdinary.1 hf).2.2
  have hfarther : (f.distance + 1).toNat = f.distance.toNat + 1 :=
    Frame.toNat_distance_add_one hcrosses
  have hnearest : ∀ h ∈ s.crossingOrdinary site, f.distance.toNat ≤ h.distance.toNat :=
    fun h hh => UInt32.le_iff_toNat_le.1 (hleast _ (List.mem_map_of_mem hh))
  have hbound : (f.distance + 1).toNat ≤ site.maxDistance.toNat := by
    rw [hfarther]
    exact Frame.crosses_iff.1 hcrosses
  have hmay (x : Feature) : x ∈ (behind extra (joinAll (s.ordinaryFeatures site))).may ↔
      (∃ f ∈ s.crossingOrdinary site, x ∈ (f.contribution site site.constants).may) ∨
        x ∈ extra.may := by
    rw [MayAlways.mem_may_behind, ordinaryFeatures, Frame.mem_may_joinAll_map]
  simp only [Frame.mem_may_contribution_iff] at hmay
  exact {
    distance := ⟨f, hf, hnearest, hfarther⟩
    distance_le := hbound
    mem_origins := fun _ => SortedSet.mem_unionOf
    mem_fieldOrigins := fun _ => SortedSet.mem_unionOf
    mem_may := hmay
    mem_always := fun _ => MayAlways.mem_always_behind_of_wellFormed hextra
    callee := rfl
    port := rfl
    callPosition := rfl
    fieldCallee := rfl
    locallyInferred := rfl
    userFeatures := rfl
    viaTypePorts := rfl
    viaValuePorts := rfl
    localPositions := rfl
    canonicalNames := rfl }

end FrameSet

namespace Taint

variable {t : Taint} {site : CallSite} {extra : MayAlways}

/-- The frames of a kind that are no producer declarations and are near enough to cross. -/
def crossingOrdinary (t : Taint) (kind : Kind) (site : CallSite) : List Frame :=
  (t.framesOf kind).elements.filter fun f =>
    !f.isProducerDeclaration && decide (f.distance < site.maxDistance)

/-- The frames of a kind that have no canonical names. -/
def nameless (t : Taint) (kind : Kind) : List Frame :=
  (t.framesOf kind).elements.filter (!·.isCrtex)

theorem crossingOrdinary_eq (t : Taint) (kind : Kind) (site : CallSite) :
    t.crossingOrdinary kind site = (t.get? kind).elim [] (·.crossingOrdinary site) := by
  unfold crossingOrdinary framesOf
  cases t.get? kind with
  | none => rfl
  | some s =>
      rw [Option.elim_some, Option.elim_some, FrameSet.crossingOrdinary, FrameSet.ordinary,
        List.filter_filter]
      exact List.filter_congr fun f _ => Bool.and_comm _ _

theorem framesOf_propagated (ht : t.Valid) (kind : Kind) :
    (t.propagated site extra).framesOf kind =
      (t.get? kind).elim ∅ fun s => (s.propagateWith extra site).frames := by
  unfold framesOf
  cases hm : (t.propagated site extra).get? kind with
  | some m =>
      obtain ⟨s, hs, rfl, -⟩ := (get?_propagated ht).1 hm
      rw [hs]
      rfl
  | none =>
      cases hs : t.get? kind with
      | none => rfl
      | some s =>
          have hempty : (s.propagateWith extra site).isEmpty := by
            apply Bool.of_not_eq_false
            intro hsome
            cases hm.symm.trans ((get?_propagated ht).2 ⟨s, hs, rfl, hsome⟩)
          exact (FrameSet.frames_eq_empty hempty).symm

/-- Behind a call the frames of a kind without canonical names are those under one key. -/
theorem nameless_propagated (ht : t.Valid) (kind : Kind) :
    (t.propagated site extra).nameless kind =
      ((t.propagated site extra).frame? kind (.ordinaryAt site)).toList := by
  rw [nameless, framesOf_propagated ht, frame?_propagated_eq ht]
  cases hs : t.get? kind with
  | none => rfl
  | some s =>
      have hkey :=
        FrameSet.filter_isCrtex_propagateWith (valid_of_get? ht hs).1 extra site false
      simp only [beq_false, Bool.false_eq_true, if_false] at hkey
      exact hkey

theorem frame?_ordinaryAt_eq_none_iff (ht : t.Valid) (kind : Kind) :
    (t.propagated site extra).frame? kind (.ordinaryAt site) = none ↔
      t.crossingOrdinary kind site = [] := by
  rw [frame?_propagated_eq ht, crossingOrdinary_eq]
  cases hs : t.get? kind with
  | none => simp
  | some s => exact FrameSet.get?_ordinaryAt_eq_none_iff (valid_of_get? ht hs).1

theorem isMerged_of_frame? (ht : t.Valid) (hextra : extra.WellFormed) {kind : Kind} {g : Frame}
    (hg : (t.propagated site extra).frame? kind (.ordinaryAt site) = some g) :
    g.IsMerged site extra (t.crossingOrdinary kind site) := by
  rw [frame?_propagated_eq ht] at hg
  obtain ⟨s, hs, hg⟩ := Option.bind_eq_some_iff.1 hg
  rw [crossingOrdinary_eq, hs]
  exact FrameSet.isMerged_of_get? (valid_of_get? ht hs).1 hextra hg

/-- Valid taint crosses a call without a fault. Behind the call a kind has a frame without canonical
names exactly when one of its frames crosses that is no producer declaration, and then it has one
such frame, to which all of those are merged. -/
theorem propagate_nameless (ht : t.Valid) (hextra : extra.WellFormed) (site : CallSite)
    (c : Context) : ∃ u, (t.propagate site extra c).1 = .ok u ∧ ∀ kind,
      (u.nameless kind ≠ [] ↔ t.crossingOrdinary kind site ≠ []) ∧
      (t.crossingOrdinary kind site ≠ [] →
        ∃ g, u.nameless kind = [g] ∧ g.IsMerged site extra (t.crossingOrdinary kind site)) := by
  refine ⟨t.propagated site extra, by rw [propagate_of_valid ht], fun kind => ?_⟩
  rw [nameless_propagated ht]
  have hnone : (t.propagated site extra).frame? kind (.ordinaryAt site) = none ↔
      t.crossingOrdinary kind site = [] := frame?_ordinaryAt_eq_none_iff ht kind
  cases hg : (t.propagated site extra).frame? kind (.ordinaryAt site) with
  | none =>
      have hcross : t.crossingOrdinary kind site = [] := hnone.1 hg
      exact ⟨iff_of_false (fun h => h rfl) fun h => h hcross, fun h => absurd hcross h⟩
  | some g =>
      have hcross : t.crossingOrdinary kind site ≠ [] := by
        intro hnil
        cases hg.symm.trans (hnone.2 hnil)
      refine ⟨iff_of_true (List.cons_ne_nil g []) hcross, fun _ => ⟨g, rfl, ?_⟩⟩
      exact isMerged_of_frame? ht hextra hg

/-- Of two frames, the farther of which asks for the type of a parameter that is observed and of one
that is not, the nearer one gives the distance, and the feature of the type is there beside the
feature of the instruction. -/
theorem propagate_nameless_of_two :
    let asking : Frame := { Frame.sample with
      port := .ofRoot (.argument 0)
      distance := 2
      viaTypePorts := .ofList [.argument 0, .argument 7] }
    let t := ofList [.sample, asking]
    let extra : MayAlways := .ofAlways (.ofList [⟨"called"⟩])
    let site : CallSite := { CallSite.sample with registerTypes := [some ⟨"LInput;"⟩] }
    t.Valid ∧ extra.WellFormed ∧ ∃ u g, (t.propagate site extra ⟨.ofPreset .fast, []⟩).1 = .ok u ∧
      u.nameless ⟨"Source"⟩ = [g] ∧ g.distance.toNat = 1 ∧
      ⟨"via-type:LInput;"⟩ ∈ g.inferred.may ∧ ⟨"called"⟩ ∈ g.inferred.always := by
  intro asking t extra site
  have ht : t.Valid := valid_ofList _
  have hextra : extra.WellFormed := fun _ hx => hx
  obtain ⟨u, hu, hkinds⟩ := propagate_nameless ht hextra site ⟨.ofPreset .fast, []⟩
  obtain ⟨g, hg, hmerged⟩ := (hkinds ⟨"Source"⟩).2 (by decide)
  obtain ⟨f, -, hnearest, hfarther⟩ := hmerged.distance
  have hsample : .sample ∈ t.crossingOrdinary ⟨"Source"⟩ site := by decide
  have hasking : asking ∈ t.crossingOrdinary ⟨"Source"⟩ site := by decide
  have hnear : f.distance.toNat ≤ 0 := hnearest _ hsample
  have hobserved : Root.Observes asking.viaTypePorts site.registerTypes viaTypeFeature
      ⟨"via-type:LInput;"⟩ := ⟨0, by decide, by decide, rfl⟩
  have htype : ⟨"via-type:LInput;"⟩ ∈ g.inferred.may :=
    (hmerged.mem_may _).2 (.inl ⟨asking, hasking, .inr (.inl hobserved)⟩)
  exact ⟨ht, hextra, u, g, hu, hg, by omega, htype, hmerged.mem_always _ (by decide)⟩

end Taint
end TaintFlow
