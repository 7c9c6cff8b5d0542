import TaintFlow.Proofs.Widening.Universe

/-!
# The universe of a loop

From finitely many frames, calls and path elements a universe is made that holds the frames and is
left neither by the calls nor by appending the elements. Two things could go on forever and do not:
a path is not extended beyond the greatest depth, and a name that has been resolved is not resolved
again.
-/
namespace TaintFlow

namespace AccessPath

variable {ports : List AccessPath} {elements : List PathElement} {p : AccessPath}

/-- The paths of at most `n` elements. -/
def paths (elements : List PathElement) : Nat → List (List PathElement)
  | 0 => [[]]
  | n + 1 => [] :: elements.flatMap fun e => (paths elements n).map (e :: ·)

theorem mem_paths {n : Nat} {path : List PathElement} :
    path ∈ paths elements n ↔ path.length ≤ n ∧ ∀ e ∈ path, e ∈ elements := by
  induction n generalizing path with
  | zero => cases path <;> simp [paths]
  | succ n ih =>
      cases path with
      | nil => simp [paths]
      | cons e path =>
          simp [paths, ih]
          tauto

/-- The ports, and all that comes of appending the elements to them. -/
def grown (ports : List AccessPath) (elements : List PathElement) : List AccessPath :=
  ports ++ ports.flatMap fun p =>
    (paths (elements ++ ports.flatMap path) maxDepth).map fun path => { p with path }

theorem mem_grown : p ∈ grown ports elements ↔ p ∈ ports ∨ (∃ q ∈ ports, q.root = p.root) ∧
    p.path ∈ paths (elements ++ ports.flatMap path) maxDepth := by
  obtain ⟨root, path⟩ := p
  simp only [grown, List.mem_append, List.mem_flatMap, List.mem_map, AccessPath.mk.injEq]
  refine or_congr_right ⟨fun hfound => ?_, fun hfound => ?_⟩
  · obtain ⟨q, hq, path, hpath, rfl, rfl⟩ := hfound
    exact ⟨⟨q, hq, rfl⟩, hpath⟩
  · obtain ⟨⟨q, hq, hroot⟩, hpath⟩ := hfound
    exact ⟨q, hq, path, hpath, hroot, rfl⟩

/-- A port that is short enough to be extended has a known root and known elements, also if it is
one of the first ports. -/
theorem append_mem_grown (hp : p ∈ grown ports elements) {e : PathElement} (he : e ∈ elements) :
    p.append e ∈ grown ports elements := by
  unfold append
  split
  · rename_i hshort
    have hknown : (∃ q ∈ ports, q.root = p.root) ∧
        ∀ x ∈ p.path, x ∈ elements ++ ports.flatMap path := by
      rcases mem_grown.1 hp with hport | ⟨hroot, hpath⟩
      · refine ⟨⟨p, hport, rfl⟩, fun x hx => List.mem_append_right _ ?_⟩
        exact List.mem_flatMap.2 ⟨p, hport, hx⟩
      · exact ⟨hroot, (mem_paths.1 hpath).2⟩
    refine mem_grown.2 (.inr ⟨hknown.1, mem_paths.2 ⟨?_, fun x hx => ?_⟩⟩)
    · rw [List.length_append, List.length_singleton]
      exact hshort
    · rcases List.mem_append.1 hx with hx | hx
      · exact hknown.2 x hx
      · rw [List.mem_singleton.1 hx]
        exact List.mem_append_left _ he
  · exact hp

end AccessPath

namespace CanonicalName

variable {name resolved : CanonicalName} {callee : Signature} {viaTypes : List Feature}

/-- Several types resolve no more than none does. -/
theorem resolveViaType_eq_some {cs ds : List Char} (h : resolveViaType viaTypes cs = some ds) :
    resolveViaType [] cs = some ds ∨ ∃ x ∈ viaTypes, resolveViaType [x] cs = some ds := by
  match viaTypes with
  | [] => exact .inl h
  | [x] => exact .inr ⟨x, by simp, h⟩
  | _ :: _ :: _ =>
      unfold resolveViaType at h
      split at h
      · cases h
      · rename_i hnone
        left
        unfold resolveViaType
        rw [if_neg hnone, h]

theorem instantiate_eq_some (h : name.instantiate callee viaTypes = some resolved) :
    name.instantiate callee [] = some resolved ∨
      ∃ x ∈ viaTypes, name.instantiate callee [x] = some resolved := by
  cases name with
  | instantiated t => cases h
  | template t =>
      obtain ⟨cs, hcs, hresolved⟩ := Option.bind_eq_some_iff.1 h
      rcases resolveViaType_eq_some hcs with hcs | ⟨x, hx, hcs⟩
      · exact .inl (Option.bind_eq_some_iff.2 ⟨cs, hcs, hresolved⟩)
      · exact .inr ⟨x, hx, Option.bind_eq_some_iff.2 ⟨cs, hcs, hresolved⟩⟩

theorem instantiate_of_instantiate (h : name.instantiate callee viaTypes = some resolved)
    (callee' : Signature) (viaTypes' : List Feature) :
    resolved.instantiate callee' viaTypes' = none := by
  cases name with
  | instantiated t => cases h
  | template t =>
      obtain ⟨cs, -, hresolved⟩ := Option.bind_eq_some_iff.1 h
      split at hresolved
      · cases hresolved
      · cases hresolved
        rfl

/-- All that the name may be resolved to at the call site. -/
def resolutions (name : CanonicalName) (site : CallSite) : List CanonicalName :=
  ([] :: site.registerTypes.map fun observed => [viaTypeFeature observed]).filterMap
    (name.instantiate site.callee.signature)

theorem mem_resolutions {site : CallSite}
    (hviaTypes : ∀ x ∈ viaTypes, ∃ observed ∈ site.registerTypes, viaTypeFeature observed = x)
    (h : name.instantiate site.callee.signature viaTypes = some resolved) :
    resolved ∈ name.resolutions site := by
  refine List.mem_filterMap.2 ?_
  rcases instantiate_eq_some h with hnone | ⟨x, hx, hone⟩
  · exact ⟨[], by simp, hnone⟩
  · obtain ⟨observed, hobserved, rfl⟩ := hviaTypes x hx
    exact ⟨_, List.mem_cons_of_mem _ (List.mem_map_of_mem hobserved), hone⟩

end CanonicalName

namespace MayAlways

def mentioned (m : MayAlways) : List Feature := m.may.toList ++ m.always.toList

theorem among_of_mentioned {features : List Feature} {m : MayAlways}
    (h : ∀ x ∈ m.mentioned, x ∈ features) : m.Among features :=
  ⟨fun x hx => h x (List.mem_append_left _ hx), fun x hx => h x (List.mem_append_right _ hx)⟩

end MayAlways

namespace Universe

/-- What comes of the frames `seeds` by way of the calls, with the features of their instructions,
and by appending the elements. -/
def generated (seeds : List Frame) (calls : List (CallSite × MayAlways))
    (elements : List PathElement) : Universe where
  kinds := seeds.map Frame.kind
  ports := AccessPath.grown
    (seeds.map Frame.port ++
      calls.flatMap fun call => [call.1.port, call.1.port.canonicalize call.1.callee]) elements
  callees := seeds.map Frame.callee ++ calls.map fun call => some call.1.callee.signature
  fieldCallees := none :: seeds.map Frame.fieldCallee
  callPositions := seeds.map Frame.callPosition ++ calls.map fun call => some call.1.position
  origins := seeds.flatMap (·.origins.toList)
  fieldOrigins := seeds.flatMap (·.fieldOrigins.toList)
  features :=
    (seeds.flatMap fun f =>
      f.inferred.mentioned ++ f.locallyInferred.mentioned ++ f.userFeatures.toList) ++
    calls.flatMap fun call =>
      call.1.registerTypes.map viaTypeFeature ++ call.1.constants.map viaValueFeature ++
        call.2.mentioned
  viaPorts := seeds.flatMap fun f => f.viaTypePorts.toList ++ f.viaValuePorts.toList
  localPositions := seeds.flatMap (·.localPositions.toList)
  names :=
    (seeds.flatMap (·.canonicalNames.toList)) ++
    (seeds.flatMap (·.canonicalNames.toList)).flatMap fun name =>
      calls.flatMap fun call => name.resolutions call.1

variable {seeds : List Frame} {calls : List (CallSite × MayAlways)} {elements : List PathElement}

theorem generated_holds {f : Frame} (hf : f ∈ seeds) :
    (generated seeds calls elements).Holds f := by
  have hfeatures (x : Feature)
      (hx : x ∈ f.inferred.mentioned ++ f.locallyInferred.mentioned ++ f.userFeatures.toList) :
      x ∈ (generated seeds calls elements).features :=
    List.mem_append_left _ (List.mem_flatMap.2 ⟨f, hf, hx⟩)
  have hviaPorts (port : Root) (hport : port ∈ f.viaTypePorts.toList ++ f.viaValuePorts.toList) :
      port ∈ (generated seeds calls elements).viaPorts := List.mem_flatMap.2 ⟨f, hf, hport⟩
  exact {
    kind := List.mem_map_of_mem hf
    port := AccessPath.mem_grown.2 (.inl (List.mem_append_left _ (List.mem_map_of_mem hf)))
    callee := List.mem_append_left _ (List.mem_map_of_mem hf)
    fieldCallee := List.mem_cons_of_mem _ (List.mem_map_of_mem hf)
    callPosition := List.mem_append_left _ (List.mem_map_of_mem hf)
    origins := fun x hx => List.mem_flatMap.2 ⟨f, hf, hx⟩
    fieldOrigins := fun x hx => List.mem_flatMap.2 ⟨f, hf, hx⟩
    inferred := MayAlways.among_of_mentioned fun x hx =>
      hfeatures x (List.mem_append_left _ (List.mem_append_left _ hx))
    locallyInferred := MayAlways.among_of_mentioned fun x hx =>
      hfeatures x (List.mem_append_left _ (List.mem_append_right _ hx))
    userFeatures := fun x hx => hfeatures x (List.mem_append_right _ hx)
    viaTypePorts := fun x hx => hviaPorts x (List.mem_append_left _ hx)
    viaValuePorts := fun x hx => hviaPorts x (List.mem_append_right _ hx)
    localPositions := fun x hx => List.mem_flatMap.2 ⟨f, hf, hx⟩
    canonicalNames := fun x hx => List.mem_append_left _ (List.mem_flatMap.2 ⟨f, hf, hx⟩) }

theorem generated_admitsElement {element : PathElement} (h : element ∈ elements) :
    (generated seeds calls elements).AdmitsElement element := fun _ hp =>
  AccessPath.append_mem_grown hp h

theorem generated_admitsCall {site : CallSite} {extra : MayAlways} (h : (site, extra) ∈ calls) :
    (generated seeds calls elements).AdmitsCall site extra := by
  have hport (p : AccessPath) (hp : p ∈ [site.port, site.port.canonicalize site.callee]) :
      p ∈ (generated seeds calls elements).ports :=
    AccessPath.mem_grown.2 (.inl (List.mem_append_right _ (List.mem_flatMap.2 ⟨_, h, hp⟩)))
  have hfeatures (x : Feature) (hx : x ∈ site.registerTypes.map viaTypeFeature ++
      site.constants.map viaValueFeature ++ extra.mentioned) :
      x ∈ (generated seeds calls elements).features :=
    List.mem_append_right _ (List.mem_flatMap.2 ⟨_, h, hx⟩)
  exact {
    port := hport _ (by simp)
    canonicalPort := hport _ (by simp)
    callee := List.mem_append_right _ (List.mem_map_of_mem h)
    fieldCallee := List.mem_cons_self
    callPosition := List.mem_append_right _ (List.mem_map_of_mem h)
    types := fun observed hobserved => hfeatures _
      (List.mem_append_left _ (List.mem_append_left _ (List.mem_map_of_mem hobserved)))
    constants := fun observed hobserved => hfeatures _
      (List.mem_append_left _ (List.mem_append_right _ (List.mem_map_of_mem hobserved)))
    extra := MayAlways.among_of_mentioned fun x hx => hfeatures x (List.mem_append_right _ hx)
    names := by
      intro name hname viaTypes hviaTypes resolved hresolved
      rcases List.mem_append.1 hname with hdeclared | hname
      · refine List.mem_append_right _ (List.mem_flatMap.2 ⟨name, hdeclared, ?_⟩)
        exact List.mem_flatMap.2 ⟨_, h, CanonicalName.mem_resolutions hviaTypes hresolved⟩
      · -- The name came from a call, and is resolved no further.
        obtain ⟨declared, -, hname⟩ := List.mem_flatMap.1 hname
        obtain ⟨call, -, hname⟩ := List.mem_flatMap.1 hname
        obtain ⟨viaTypes', -, hinstantiate⟩ := List.mem_filterMap.1 hname
        rw [CanonicalName.instantiate_of_instantiate hinstantiate] at hresolved
        cases hresolved }

end Universe
end TaintFlow
