import Mathlib.Data.Finite.Prod
import Mathlib.Data.Set.Finite.Powerset
import TaintFlow.Proofs.Propagation.Crossing
import TaintFlow.Proofs.Validity.Within

/-!
# Universes of frames

A universe lists what frames may be made of: the kinds and ports, the parts of their keys, and the
members that their sets may have. The distance needs no list, since there are finitely many anyway.
So a universe holds finitely many frames, and finitely many taints are made of them. Joins do not
leave a universe; it is said here what it takes for calls and for longer ports not to leave it
either.
-/
namespace TaintFlow

/-- All members of the set are on the list. -/
def SortedSet.Among {α : Type} [Ord α] (as : List α) (s : SortedSet α) : Prop :=
  ∀ x, x ∈ s → x ∈ as

namespace SortedSet

variable {α β : Type} [Ord α] [Std.TransOrd α] {as : List α} {s t : SortedSet α}

theorem finite_among (as : List α) : {s : SortedSet α | s.Among as}.Finite := by
  refine Set.Finite.of_finite_image (f := fun s => {x | x ∈ s}) ?_ ?_
  · refine as.finite_toSet.finite_subsets.subset ?_
    intro members hmembers
    obtain ⟨s, hs, rfl⟩ := hmembers
    exact hs
  · intro s _ t _ heq
    exact ext fun x => Set.ext_iff.1 heq x

omit [Std.TransOrd α] in
theorem among_empty : (∅ : SortedSet α).Among as := fun x hx =>
  absurd hx (not_mem_emptyCollection x)

variable [Std.LawfulEqOrd α]

theorem Among.union (hs : s.Among as) (ht : t.Among as) : (s.union t).Among as := fun x hx =>
  (mem_union.1 hx).elim (hs x) (ht x)

theorem among_unionOf {part : β → SortedSet α} {bs : List β} (h : ∀ b ∈ bs, (part b).Among as) :
    (unionOf part bs).Among as := forall_mem_unionOf.2 h

end SortedSet

/-- The features that may hold and those that always hold are on the list. -/
def MayAlways.Among (features : List Feature) (m : MayAlways) : Prop :=
  m.may.Among features ∧ m.always.Among features

namespace MayAlways

variable {features : List Feature} {m e : MayAlways}

theorem finite_among (features : List Feature) : {m : MayAlways | m.Among features}.Finite := by
  have hsets := SortedSet.finite_among features
  refine ((hsets.image2 MayAlways.sets hsets).insert .bottom).subset fun m hm => ?_
  cases m with
  | bottom => exact .inl rfl
  | sets may always => exact .inr ⟨may, hm.1, always, hm.2, rfl⟩

theorem among_bottom : bottom.Among features := ⟨SortedSet.among_empty, SortedSet.among_empty⟩

theorem Among.join (hm : m.Among features) (he : e.Among features) : (m.join e).Among features := by
  refine ⟨fun x hx => (mem_may_join.1 hx).elim (hm.1 x) (he.1 x), ?_⟩
  cases m with
  | bottom => cases e <;> exact he.2
  | sets may always =>
      cases e with
      | bottom => exact hm.2
      | sets may' always' => exact fun x hx => hm.2 x (SortedSet.mem_inter.1 hx).1

theorem Among.compose (hm : m.Among features) (he : e.Among features) :
    (m.compose e).Among features :=
  ⟨fun x hx => (mem_may_compose.1 hx).elim (hm.1 x) (he.1 x),
    fun x hx => (mem_always_compose.1 hx).elim (hm.2 x) (he.2 x)⟩

theorem among_joinAll {ms : List MayAlways} (h : ∀ m ∈ ms, m.Among features) :
    (joinAll ms).Among features := by
  constructor
  · intro x hx
    obtain ⟨m, hm, hx⟩ := mem_may_joinAll.1 hx
    exact (h m hm).1 x hx
  · intro x hx
    obtain ⟨⟨m, hm, hknown⟩, hall⟩ := mem_always_joinAll.1 hx
    exact (h m hm).2 x (hall m hm hknown)

end MayAlways

theorem Root.mem_of_observed? {α : Type} {port : Root} {observations : List α} {a : α}
    (h : port.observed? observations = some a) : a ∈ observations := by
  obtain ⟨i, -, hi⟩ := Option.bind_eq_some_iff.1 h
  exact List.mem_of_getElem? hi

namespace Frame

variable {f : Frame} {x : Feature}

theorem exists_observed_of_mem_viaTypeFeatures {site : CallSite} (hx : x ∈ f.viaTypeFeatures site) :
    ∃ observed ∈ site.registerTypes, viaTypeFeature observed = x := by
  obtain ⟨port, -, hport⟩ := List.mem_filterMap.1 hx
  obtain ⟨observed, hobserved, rfl⟩ := Option.map_eq_some_iff.1 hport
  exact ⟨observed, Root.mem_of_observed? hobserved, rfl⟩

theorem exists_observed_of_mem_viaValueFeatures {constants : List (Option String)}
    (hx : x ∈ f.viaValueFeatures constants) :
    ∃ observed ∈ constants, viaValueFeature observed = x := by
  obtain ⟨port, -, hport⟩ := List.mem_filterMap.1 hx
  obtain ⟨observed, hobserved, rfl⟩ := Option.map_eq_some_iff.1 hport
  exact ⟨observed, Root.mem_of_observed? hobserved, rfl⟩

/-- All fields of a frame. -/
def components (f : Frame) :=
  (f.kind, f.port, f.callee, f.fieldCallee, f.callPosition, f.distance, f.origins, f.fieldOrigins,
    f.inferred, f.locallyInferred, f.userFeatures, f.viaTypePorts, f.viaValuePorts,
    f.localPositions, f.canonicalNames)

theorem components_injective : Function.Injective components := by
  intro f g heq
  cases f
  cases g
  simpa [components] using heq

end Frame

/-- What frames may be made of. -/
structure Universe where
  kinds : List Kind
  ports : List AccessPath
  callees : List (Option Signature)
  fieldCallees : List (Option Field)
  callPositions : List (Option Position)
  origins : List Signature
  fieldOrigins : List Field
  features : List Feature
  viaPorts : List Root
  localPositions : List Position
  names : List CanonicalName

namespace Universe

/-- The frame is made of what the universe lists. -/
structure Holds (U : Universe) (f : Frame) : Prop where
  kind : f.kind ∈ U.kinds
  port : f.port ∈ U.ports
  callee : f.callee ∈ U.callees
  fieldCallee : f.fieldCallee ∈ U.fieldCallees
  callPosition : f.callPosition ∈ U.callPositions
  origins : f.origins.Among U.origins
  fieldOrigins : f.fieldOrigins.Among U.fieldOrigins
  inferred : f.inferred.Among U.features
  locallyInferred : f.locallyInferred.Among U.features
  userFeatures : f.userFeatures.Among U.features
  viaTypePorts : f.viaTypePorts.Among U.viaPorts
  viaValuePorts : f.viaValuePorts.Among U.viaPorts
  localPositions : f.localPositions.Among U.localPositions
  canonicalNames : f.canonicalNames.Among U.names

variable {U : Universe}

theorem finite_distances : (Set.univ : Set UInt32).Finite := by
  refine ((Set.finite_lt_nat (2 ^ 32)).preimage (f := UInt32.toNat) ?_).subset fun d _ => d.toNat_lt
  intro d _ d' _ heq
  exact UInt32.toNat_inj.1 heq

theorem finite_holds (U : Universe) : {f | U.Holds f}.Finite := by
  have hfeatures := MayAlways.finite_among U.features
  have hviaPorts := SortedSet.finite_among U.viaPorts
  have hproduct := U.kinds.finite_toSet.prod <| U.ports.finite_toSet.prod <|
    U.callees.finite_toSet.prod <| U.fieldCallees.finite_toSet.prod <|
    U.callPositions.finite_toSet.prod <| finite_distances.prod <|
    (SortedSet.finite_among U.origins).prod <| (SortedSet.finite_among U.fieldOrigins).prod <|
    hfeatures.prod <| hfeatures.prod <| (SortedSet.finite_among U.features).prod <|
    hviaPorts.prod <| hviaPorts.prod <|
    (SortedSet.finite_among U.localPositions).prod (SortedSet.finite_among U.names)
  refine (hproduct.preimage Frame.components_injective.injOn).subset fun f hf => ?_
  exact ⟨hf.kind, hf.port, hf.callee, hf.fieldCallee, hf.callPosition, trivial, hf.origins,
    hf.fieldOrigins, hf.inferred, hf.locallyInferred, hf.userFeatures, hf.viaTypePorts,
    hf.viaValuePorts, hf.localPositions, hf.canonicalNames⟩

/-- A taint is determined by its frames, so there are finitely many in a universe. -/
theorem finite_within (U : Universe) : {t : Taint | t.Within U.Holds}.Finite := by
  refine Set.Finite.of_finite_image (f := fun t => {f | f ∈ t.frames}) ?_ ?_
  · refine U.finite_holds.finite_subsets.subset ?_
    intro frames hframes
    obtain ⟨t, ht, rfl⟩ := hframes
    exact fun f hf => Taint.Within.of_mem ht hf
  · intro t ht u hu heq
    exact Taint.eq_of_mem_frames (Taint.Within.valid ht) (Taint.Within.valid hu)
      fun f => Set.ext_iff.1 heq f

theorem holds_joinClosed (U : Universe) : Frame.JoinClosed U.Holds := by
  intro f g hf hg
  exact {
    kind := hf.kind
    port := hf.port
    callee := hf.callee
    fieldCallee := hf.fieldCallee
    callPosition := hf.callPosition
    origins := hf.origins.union hg.origins
    fieldOrigins := hf.fieldOrigins.union hg.fieldOrigins
    inferred := hf.inferred.join hg.inferred
    locallyInferred := hf.locallyInferred.join hg.locallyInferred
    userFeatures := hf.userFeatures.union hg.userFeatures
    viaTypePorts := hf.viaTypePorts.union hg.viaTypePorts
    viaValuePorts := hf.viaValuePorts.union hg.viaValuePorts
    localPositions := hf.localPositions.union hg.localPositions
    canonicalNames := hf.canonicalNames.union hg.canonicalNames }

/-- Ports stay on the list when the element is appended to them. -/
def AdmitsElement (U : Universe) (element : PathElement) : Prop :=
  ∀ p ∈ U.ports, p.append element ∈ U.ports

/-- The universe lists what a call brings to the frames behind it. Names that are resolved there may
be resolved again, so all names on the list are asked for. -/
structure AdmitsCall (U : Universe) (site : CallSite) (extra : MayAlways) : Prop where
  port : site.port ∈ U.ports
  canonicalPort : site.port.canonicalize site.callee ∈ U.ports
  callee : some site.callee.signature ∈ U.callees
  fieldCallee : none ∈ U.fieldCallees
  callPosition : some site.position ∈ U.callPositions
  types : ∀ observed ∈ site.registerTypes, viaTypeFeature observed ∈ U.features
  constants : ∀ observed ∈ site.constants, viaValueFeature observed ∈ U.features
  extra : extra.Among U.features
  names : ∀ name ∈ U.names, ∀ viaTypes : List Feature,
    (∀ x ∈ viaTypes, ∃ observed ∈ site.registerTypes, viaTypeFeature observed = x) →
      ∀ resolved, name.instantiate site.callee.signature viaTypes = some resolved →
        resolved ∈ U.names

theorem holds_appendPort {f : Frame} {element : PathElement} (h : U.AdmitsElement element)
    (hf : U.Holds f) : U.Holds (f.appendPort element) :=
  { hf with port := h f.port hf.port }

section Crossing

variable {f g : Frame} {site : CallSite} {extra : MayAlways} (hcall : U.AdmitsCall site extra)
include hcall

theorem among_contribution {constants : List (Option String)} (hf : U.Holds f)
    (hconstants : ∀ observed ∈ constants, observed ∈ site.constants) :
    (f.contribution site constants).Among U.features := by
  have hvias (x : Feature) (hx : x ∈ f.viaTypeFeatures site ∨ x ∈ f.viaValueFeatures constants) :
      x ∈ U.features := by
    rcases hx with hx | hx
    · obtain ⟨observed, hobserved, rfl⟩ := Frame.exists_observed_of_mem_viaTypeFeatures hx
      exact hcall.types observed hobserved
    · obtain ⟨observed, hobserved, rfl⟩ := Frame.exists_observed_of_mem_viaValueFeatures hx
      exact hcall.constants observed (hconstants observed hobserved)
  constructor
  · intro x hx
    rcases Frame.mem_may_contribution.1 hx with hx | hx | hx | hx
    · exact hf.inferred.1 x hx
    · exact hf.locallyInferred.1 x hx
    · exact hf.userFeatures x hx
    · exact hvias x hx
  · intro x hx
    rcases Frame.mem_always_contribution.1 hx with hx | hx | hx | hx
    · exact hf.inferred.2 x hx
    · exact hf.locallyInferred.2 x hx
    · exact hf.userFeatures x hx
    · exact hvias x hx

/-- Frames of the universe are merged to a frame of the universe. -/
theorem holds_atCall {kind : Kind} {port : AccessPath} {distance : UInt32}
    {names : SortedSet CanonicalName} {features : MayAlways} {fs : List Frame}
    (hkind : kind ∈ U.kinds) (hport : port ∈ U.ports) (hnames : names.Among U.names)
    (hfeatures : features.Among U.features) (hfs : ∀ f ∈ fs, U.Holds f) :
    U.Holds (.atCall kind port site distance names features fs) where
  kind := hkind
  port := hport
  callee := hcall.callee
  fieldCallee := hcall.fieldCallee
  callPosition := hcall.callPosition
  origins := SortedSet.among_unionOf fun f hf => (hfs f hf).origins
  fieldOrigins := SortedSet.among_unionOf fun f hf => (hfs f hf).fieldOrigins
  inferred := hfeatures
  locallyInferred := MayAlways.among_bottom
  userFeatures := SortedSet.among_empty
  viaTypePorts := SortedSet.among_empty
  viaValuePorts := SortedSet.among_empty
  localPositions := SortedSet.among_empty
  canonicalNames := hnames

theorem holds_of_merge? {kind : Kind} {fs : List Frame}
    (hfs : ∀ f ∈ fs, f.kind = kind ∧ U.Holds f)
    (h : Frame.merge? kind fs site site.constants = some g) : U.Holds g := by
  obtain ⟨f, hf, -, rfl⟩ := Frame.exists_nearest_of_merge? h
  obtain ⟨rfl, hnearest⟩ := hfs f hf
  have hcrossing : ∀ f ∈ fs.filter (·.crosses site), U.Holds f := fun f hf =>
    (hfs f (List.mem_filter.1 hf).1).2
  refine holds_atCall hcall hnearest.kind hcall.port SortedSet.among_empty ?_ hcrossing
  refine MayAlways.among_joinAll (List.forall_mem_map.2 fun f hf => ?_)
  exact among_contribution hcall (hcrossing f hf) fun _ h => h

theorem holds_of_crossProducer? (hf : U.Holds f) (h : f.crossProducer? site = some g) :
    U.Holds g := by
  rw [Frame.crossProducer?_eq] at h
  split at h
  · cases h
    refine holds_atCall hcall hf.kind hcall.canonicalPort ?_ ?_ (List.forall_mem_singleton.2 hf)
    · intro resolved hresolved
      obtain ⟨name, hname, hinstantiate⟩ := List.mem_filterMap.1 (SortedSet.mem_ofList.1 hresolved)
      refine hcall.names name (hf.canonicalNames name hname) _ (fun x hx => ?_) _ hinstantiate
      exact Frame.exists_observed_of_mem_viaTypeFeatures hx
    · exact among_contribution hcall hf fun _ h => absurd h List.not_mem_nil
  · cases h

/-- Taint in the universe is in the universe behind the call. -/
theorem within_propagated {t : Taint} (ht : t.Within U.Holds) :
    (t.propagated site extra).Within U.Holds := by
  refine Taint.within_propagated U.holds_joinClosed ht ?_ ?_ ?_
  · intro f g hf _ hcross
    exact holds_of_crossProducer? hcall hf hcross
  · intro kind fs g hfs hmerge
    exact holds_of_merge? hcall (fun f hf => ⟨(hfs f hf).1, (hfs f hf).2.1⟩) hmerge
  · intro f hf
    exact { hf with inferred := hf.inferred.compose hcall.extra }

end Crossing
end Universe
end TaintFlow
