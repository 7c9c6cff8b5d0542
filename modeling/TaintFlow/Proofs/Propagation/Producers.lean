import TaintFlow.Proofs.Propagation.Regimes

/-!
# Producers that cross a call together

A producer declaration that crosses a call and has a name resolved there leaves a frame of its own.
But all these frames have the same port, callee and position, and of canonical names the key knows
only that there are some. So they come to stand under one key and are merged: behind the call there
is one frame with canonical names, however many producers have left one. It has the origins, the
features and the names of all of them. What one producer has left is found there by itself only when
all others leave the same.
-/
namespace TaintFlow
open MayAlways (joinAll)

theorem MayAlways.joinAll_of_forall_eq {ms : List MayAlways} {m : MayAlways} (hmem : m ∈ ms)
    (h : ∀ e ∈ ms, e = m) : joinAll ms = m := by
  cases ms with
  | nil => cases hmem
  | cons e ms =>
      have he : e = m := h e List.mem_cons_self
      have hfirst : bottom.join e = m := he ▸ joinAll_singleton
      rw [joinAll, List.foldl_cons, hfirst]
      exact joinLaws.foldl_join_eq trivial fun e' he' => h e' (List.mem_cons_of_mem e he')

namespace Frame

variable {f f' g : Frame} {fs : List Frame} {site : CallSite}

instance (site : CallSite) : DecidablePred (Qualifies site) := fun _ =>
  decidable_of_iff _ qualifies_iff.symm

/-- The frame `g` has the origins, the features and the resolved names of the producers `fs`, and
none besides. -/
structure IsLeftBy (site : CallSite) (fs : List Frame) (g : Frame) : Prop where
  mem_origins (o : Signature) : o ∈ g.origins ↔ ∃ f ∈ fs, o ∈ f.origins
  mem_fieldOrigins (o : Field) : o ∈ g.fieldOrigins ↔ ∃ f ∈ fs, o ∈ f.fieldOrigins
  features : g.features = joinAll (fs.map (·.contribution site []))
  mem_canonicalNames (n : CanonicalName) : n ∈ g.canonicalNames ↔ ∃ f ∈ fs, f.Resolves site n

/-- By themselves the two producers leave the same origins, features and names. -/
structure LeavesAlike (site : CallSite) (f g : Frame) : Prop where
  origins : f.origins = g.origins
  fieldOrigins : f.fieldOrigins = g.fieldOrigins
  features : f.contribution site [] = g.contribution site []
  names : f.resolvedNames site = g.resolvedNames site

/-- A frame that either of two producers could have left alone shows what both leave. -/
theorem IsLeftBy.leavesAlike (hf : g.IsLeftBy site [f]) (hf' : g.IsLeftBy site [f']) :
    f.LeavesAlike site f' := by
  obtain ⟨horigins, hfieldOrigins, hfeatures, hnames⟩ := hf
  obtain ⟨horigins', hfieldOrigins', hfeatures', hnames'⟩ := hf'
  simp only [List.mem_singleton, exists_eq_left] at horigins hfieldOrigins hnames
  simp only [List.mem_singleton, exists_eq_left] at horigins' hfieldOrigins' hnames'
  simp only [List.map_singleton, MayAlways.joinAll_singleton] at hfeatures hfeatures'
  refine ⟨SortedSet.ext fun o => (horigins o).symm.trans (horigins' o),
    SortedSet.ext fun o => (hfieldOrigins o).symm.trans (hfieldOrigins' o),
    hfeatures.symm.trans hfeatures', SortedSet.ext fun n => ?_⟩
  rw [mem_resolvedNames_iff, mem_resolvedNames_iff]
  exact (hnames n).symm.trans (hnames' n)

/-- Where all producers leave the same, any one of them could have left it alone. -/
theorem IsLeftBy.singleton (hg : g.IsLeftBy site fs) (hf : f ∈ fs)
    (halike : ∀ f' ∈ fs, f'.LeavesAlike site f) : g.IsLeftBy site [f] := by
  have hsame {α : Type} [Ord α] (part : Frame → SortedSet α)
      (hpart : ∀ f' ∈ fs, part f' = part f) (x : α) :
      (∃ f' ∈ fs, x ∈ part f') ↔ ∃ f' ∈ [f], x ∈ part f' := by
    simp only [List.mem_singleton, exists_eq_left]
    exact ⟨fun ⟨f', hf', hx⟩ => hpart f' hf' ▸ hx, fun hx => ⟨f, hf, hx⟩⟩
  have hfeatures : joinAll (fs.map (·.contribution site [])) = f.contribution site [] := by
    refine MayAlways.joinAll_of_forall_eq (List.mem_map_of_mem hf) fun m hm => ?_
    obtain ⟨f', hf', rfl⟩ := List.mem_map.1 hm
    exact (halike f' hf').features
  refine ⟨fun o => ?_, fun o => ?_, ?_, fun n => ?_⟩
  · exact (hg.mem_origins o).trans (hsame origins (fun f' hf' => (halike f' hf').origins) o)
  · exact (hg.mem_fieldOrigins o).trans
      (hsame fieldOrigins (fun f' hf' => (halike f' hf').fieldOrigins) o)
  · rw [hg.features, hfeatures, List.map_singleton, MayAlways.joinAll_singleton]
  · have hnames := hsame (·.resolvedNames site) (fun f' hf' => (halike f' hf').names) n
    simp only [mem_resolvedNames_iff] at hnames
    exact (hg.mem_canonicalNames n).trans hnames

theorem features_producedAll (kind : Kind) (site : CallSite) (fs : List Frame) :
    (producedAll kind site fs).features = joinAll (fs.map (·.contribution site [])) := by
  change (joinAll (fs.map (·.contribution site []))).compose .bottom = _
  cases joinAll (fs.map (·.contribution site [])) <;> rfl

theorem isLeftBy_producedAll (kind : Kind) (site : CallSite) (fs : List Frame) :
    (producedAll kind site fs).IsLeftBy site fs where
  mem_origins _ := SortedSet.mem_unionOf
  mem_fieldOrigins _ := SortedSet.mem_unionOf
  features := features_producedAll kind site fs
  mem_canonicalNames n := by
    refine SortedSet.mem_unionOf.trans ?_
    simp only [mem_resolvedNames_iff]

end Frame

namespace FrameSet

variable {s : FrameSet} {site : CallSite}

/-- The producers that leave a frame behind the call. -/
def qualifying (s : FrameSet) (site : CallSite) : List Frame :=
  s.toList.filter fun f => f.Qualifies site

theorem crossingProducers_eq : s.crossingProducers site = s.qualifying site := by
  rw [crossingProducers, producers, List.filter_filter, qualifying]
  refine List.filter_congr fun f _ => ?_
  rw [Bool.eq_iff_iff, Bool.and_comm, Bool.and_eq_true, decide_eq_true_eq, Frame.qualifies_iff]

theorem length_filter_isCrtex_propagate (hs : s.Valid) (site : CallSite) :
    ((s.propagate site).toList.filter (·.isCrtex)).length = min 1 (s.qualifying site).length := by
  rw [filter_isCrtex_propagate hs, crossingProducers_eq]
  cases s.qualifying site with
  | nil => rfl
  | cons f fs => simp

theorem isLeftBy_qualifying (hs : s.Valid) {g : Frame} (hg : g ∈ (s.propagate site).toList)
    (hcrtex : g.isCrtex) : g.IsLeftBy site (s.qualifying site) := by
  obtain ⟨-, rfl⟩ := (mem_propagate_of_isCrtex hs).1 ⟨hg, hcrtex⟩
  rw [← crossingProducers_eq]
  exact Frame.isLeftBy_producedAll s.kind site (s.crossingProducers site)

/-- Every producer that leaves a frame finds it by itself behind the call exactly when all leave the
same. -/
theorem forall_isLeftBy_iff (hs : s.Valid) :
    (∀ f ∈ s.qualifying site, ∃ g ∈ (s.propagate site).toList,
        g.isCrtex ∧ g.IsLeftBy site [f]) ↔
      ∀ f ∈ s.qualifying site, ∀ g ∈ s.qualifying site, f.LeavesAlike site g := by
  constructor
  · intro hleft f hf g hg
    obtain ⟨f', hf', fcrtex, hfleft⟩ := hleft f hf
    obtain ⟨g', hg', gcrtex, hgleft⟩ := hleft g hg
    obtain ⟨-, rfl⟩ := (mem_propagate_of_isCrtex hs).1 ⟨hf', fcrtex⟩
    obtain ⟨-, rfl⟩ := (mem_propagate_of_isCrtex hs).1 ⟨hg', gcrtex⟩
    exact hfleft.leavesAlike hgleft
  · intro halike f hf
    have hsome : s.crossingProducers site ≠ [] := crossingProducers_eq ▸ List.ne_nil_of_mem hf
    obtain ⟨hmem, hcrtex⟩ := (mem_propagate_of_isCrtex hs).2 ⟨hsome, rfl⟩
    refine ⟨_, hmem, hcrtex, ?_⟩
    exact (isLeftBy_qualifying hs hmem hcrtex).singleton hf fun g hg => halike g hg f hf

/-- A valid set crosses a call without a fault, and all producers that leave a frame leave one frame
together. There are as many frames as producers exactly when at most one producer leaves a frame,
and each producer has a frame that is left by it alone exactly when all leave the same. -/
theorem cross_producers_iff (hs : s.Valid) (site : CallSite) (c : Context) :
    ∃ p, (s.cross site c).1 = .ok p ∧
      (p.toList.filter (·.isCrtex)).length = min 1 (s.qualifying site).length ∧
      (∀ g ∈ p.toList, g.isCrtex → g.IsLeftBy site (s.qualifying site)) ∧
      ((p.toList.filter (·.isCrtex)).length = (s.qualifying site).length ↔
        (s.qualifying site).length ≤ 1) ∧
      ((∀ f ∈ s.qualifying site, ∃ g ∈ p.toList, g.isCrtex ∧ g.IsLeftBy site [f]) ↔
        ∀ f ∈ s.qualifying site, ∀ g ∈ s.qualifying site, f.LeavesAlike site g) := by
  have hlength := length_filter_isCrtex_propagate hs site
  refine ⟨s.propagate site, cross_of_valid hs site c, hlength, fun g => isLeftBy_qualifying hs,
    ?_, forall_isLeftBy_iff hs⟩
  rw [hlength]
  omega

/-- Two producers that are declared at different ports and leave the same are one frame behind the
call, which either could have left alone. -/
theorem cross_producers_of_alike :
    let s : FrameSet := ⟨⟨"Source"⟩, .ofList
      [.sampleProducer, { Frame.sampleProducer with port := .ofRoot .leaf }]⟩
    s.Valid ∧ (s.qualifying .sample).length = 2 ∧
      ∃ p, (s.cross .sample ⟨.ofPreset .fast, []⟩).1 = .ok p ∧
        (p.toList.filter (·.isCrtex)).length = 1 ∧
        ∀ f ∈ s.qualifying .sample, ∃ g ∈ p.toList, g.isCrtex ∧ g.IsLeftBy .sample [f] := by
  intro s
  have hbuilt : ofList ⟨"Source"⟩ s.toList = .ok s := by rfl
  have hs : s.Valid := valid_ofList hbuilt
  have htwo : (s.qualifying .sample).length = 2 := by decide
  obtain ⟨p, hp, hlength, -, -, halone⟩ := cross_producers_iff hs .sample ⟨.ofPreset .fast, []⟩
  rw [htwo] at hlength
  refine ⟨hs, htwo, p, hp, hlength, halone.2 fun f hf g hg => ?_⟩
  have hports : ∀ h ∈ s.qualifying .sample,
      h = .sampleProducer ∨ h = { Frame.sampleProducer with port := .ofRoot .leaf } := by decide
  rcases hports f hf with rfl | rfl <;> rcases hports g hg with rfl | rfl <;>
    exact ⟨rfl, rfl, rfl, rfl⟩

/-- Two producers with different names leave one frame, which has the names of both. -/
theorem cross_producers_of_distinct_names :
    ∃ s : FrameSet, s.Valid ∧ (s.qualifying .sample).length = 2 ∧
      ((s.propagate .sample).toList.filter (·.isCrtex)).length = 1 ∧
      ∃ f ∈ s.qualifying .sample, ∀ g ∈ (s.propagate .sample).toList,
        ¬ (g.isCrtex ∧ g.IsLeftBy .sample [f]) := by
  let s : FrameSet := ⟨⟨"Source"⟩, .ofList
    [.sampleProducer, .matched ⟨"Source"⟩ (.ofRoot .leaf) "name"]⟩
  have hbuilt : ofList ⟨"Source"⟩ s.toList = .ok s := by rfl
  refine ⟨s, valid_ofList hbuilt, by decide, by decide, .sampleProducer, by decide, ?_⟩
  intro g hg hboth
  have hname : ∀ g ∈ (s.propagate .sample).toList,
      g.isCrtex → .instantiated "name" ∈ g.canonicalNames := by decide
  obtain ⟨f, hf, hresolves⟩ := (hboth.2.mem_canonicalNames _).1 (hname g hg hboth.1)
  rw [List.mem_singleton.1 hf] at hresolves
  exact absurd (Frame.mem_resolvedNames_iff.2 hresolves) (by decide)

end FrameSet
end TaintFlow
