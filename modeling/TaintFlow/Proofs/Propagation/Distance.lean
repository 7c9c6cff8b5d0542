import TaintFlow.Proofs.Propagation.Crossing
import TaintFlow.Proofs.Validity.Within

/-!
# How far taint travels

Every call makes an ordinary frame one call farther, and a producer gives a frame at distance 0, but
only once, since that frame has a callee. So the distance of every frame behind a run of calls is at
least the number of calls, less one for a producer in front of them, and at most the greatest
distance that the call sites allow. Behind more calls than that nothing is left.
-/
namespace TaintFlow

namespace Frame

/-- The frame came through a call and is between `least` and `most` calls away. -/
def Travelled (least most : Nat) (f : Frame) : Prop :=
  f.callee.isSome ∧ least ≤ f.distance.toNat ∧ f.distance.toNat ≤ most

variable {least most : Nat} {f g : Frame} {site : CallSite}

theorem Travelled.not_isProducerDeclaration (hf : f.Travelled least most) :
    f.isProducerDeclaration = false := by
  rw [isProducerDeclaration, isLeaf, ← Option.not_isSome, hf.1]
  rfl

theorem travelled_joinClosed : JoinClosed (Travelled least most) := by
  intro f g hf hg
  obtain ⟨hcallee, hleast, hmost⟩ := hf
  refine ⟨hcallee, ?_⟩
  show least ≤ (if f.distance ≤ g.distance then f.distance else g.distance).toNat ∧
    (if f.distance ≤ g.distance then f.distance else g.distance).toNat ≤ most
  split
  · exact ⟨hleast, hmost⟩
  · exact hg.2

theorem travelled_of_crossProducer? (h : f.crossProducer? site = some g) :
    g.Travelled 0 most := by
  rw [crossProducer?_eq] at h
  split at h
  · cases h
    exact ⟨rfl, Nat.le_refl 0, Nat.zero_le most⟩
  · cases h

/-- The frame to which others are merged is one call farther than the nearest of them, and not
farther than the call site allows. -/
theorem travelled_of_merge? {kind : Kind} {fs : List Frame} {constants : List (Option String)}
    (hfs : ∀ f ∈ fs, least ≤ f.distance.toNat) (hmost : site.maxDistance.toNat ≤ most)
    (h : merge? kind fs site constants = some g) : g.Travelled (least + 1) most := by
  obtain ⟨f, hf, hcrosses, rfl⟩ := exists_nearest_of_merge? h
  have hnear := hfs f hf
  have hbelow := crosses_iff.1 hcrosses
  have hdistance : (f.distance + 1).toNat = f.distance.toNat + 1 :=
    toNat_distance_add_one hcrosses
  refine ⟨rfl, ?_⟩
  show least + 1 ≤ (f.distance + 1).toNat ∧ (f.distance + 1).toNat ≤ most
  omega

end Frame

namespace Taint
open TaintFlow.Frame (Travelled)

variable {t u : Taint} {least most : Nat} {site : CallSite} {extra : MayAlways}

/-- Behind any call all frames have travelled. -/
theorem travelled_propagated (ht : t.Valid) (hmost : site.maxDistance.toNat ≤ most) :
    (t.propagated site extra).Within (Travelled 0 most) := by
  have hany : t.Within fun _ => True := within_iff.2 ⟨ht, fun _ _ => trivial⟩
  refine within_propagated Frame.travelled_joinClosed hany ?_ ?_ fun f hf => hf
  · intro f g _ _ hcross
    exact Frame.travelled_of_crossProducer? hcross
  · intro kind fs g _ hmerge
    have htravelled := Frame.travelled_of_merge? (fun f _ => Nat.zero_le _) hmost hmerge
    exact ⟨htravelled.1, Nat.zero_le _, htravelled.2.2⟩

/-- Behind a call frames that are no producers are one call farther. -/
theorem travelled_propagated_succ (ht : t.Valid)
    (hframes : ∀ f ∈ t.frames, f.isProducerDeclaration = false ∧ least ≤ f.distance.toNat)
    (hmost : site.maxDistance.toNat ≤ most) :
    (t.propagated site extra).Within (Travelled (least + 1) most) := by
  refine within_propagated Frame.travelled_joinClosed (within_iff.2 ⟨ht, hframes⟩) ?_ ?_
    fun f hf => hf
  · intro f g hf hproducer _
    rw [hf.1] at hproducer
    cases hproducer
  · intro kind fs g hfs hmerge
    exact Frame.travelled_of_merge? (fun f hf => (hfs f hf).2.1.2) hmost hmerge

/-- No frame is farther than any frame may be. -/
theorem isEmpty_of_travelled (ht : t.Within (Travelled least most)) (hfar : most < least) :
    t.isEmpty := by
  refine isEmpty_of_forall_not_mem_frames ht.valid fun f hf => ?_
  obtain ⟨-, hleast, hmost⟩ := ht.of_mem hf
  omega

/-- A run of calls, each with the features of its instruction: what is behind one call is in front
of the next one. A fault ends the run. -/
def propagateAlong (t : Taint) :
    List (CallSite × MayAlways) → Context → Except Fault Taint × Context
  | [], c => (.ok t, c)
  | (site, extra) :: edges, c =>
    match t.propagate site extra c with
    | (.ok u, c) => u.propagateAlong edges c
    | (.error fault, c) => (.error fault, c)

theorem propagateAlong_cons (ht : t.Valid) (site : CallSite) (extra : MayAlways)
    (edges : List (CallSite × MayAlways)) (c : Context) :
    t.propagateAlong ((site, extra) :: edges) c =
      (t.propagated site extra).propagateAlong edges (c.report (t.anomalies site)) := by
  rw [propagateAlong, propagate_of_valid ht]

/-- Every further call of a run makes all frames one call farther. -/
theorem travelled_along (edges : List (CallSite × MayAlways))
    (hmost : ∀ e ∈ edges, e.1.maxDistance.toNat ≤ most) (ht : t.Within (Travelled least most))
    (c : Context) : ∃ u, (t.propagateAlong edges c).1 = .ok u ∧
      u.Within (Travelled (least + edges.length) most) := by
  induction edges generalizing t least c with
  | nil => exact ⟨t, rfl, ht⟩
  | cons e edges ih =>
      obtain ⟨site, extra⟩ := e
      have hstep : (t.propagated site extra).Within (Travelled (least + 1) most) := by
        refine travelled_propagated_succ ht.valid (fun f hf => ?_) (hmost (site, extra) (by simp))
        have htravelled := ht.of_mem hf
        exact ⟨htravelled.not_isProducerDeclaration, htravelled.2.1⟩
      obtain ⟨u, hu, hwithin⟩ :=
        ih (fun e he => hmost e (by simp [he])) hstep (c.report (t.anomalies site))
      rw [propagateAlong_cons ht.valid]
      refine ⟨u, hu, ?_⟩
      rw [List.length_cons, Nat.add_comm edges.length, ← Nat.add_assoc]
      exact hwithin

/-- A run of calls that allow no distance above `limit` meets no fault. Behind `n` calls every frame
has a callee, is no producer declaration, and is at least `n - 1` and at most `limit` calls away, so
nothing is left behind `limit + 2` calls. Taint without producer declarations is at least `n` calls
away, and nothing of it is left behind `limit + 1` calls. -/
theorem propagateAlong_bounded (ht : t.Valid) (edges : List (CallSite × MayAlways)) (limit : Nat)
    (hlimit : ∀ e ∈ edges, e.1.maxDistance.toNat ≤ limit) (c : Context) :
    ∃ u, (t.propagateAlong edges c).1 = .ok u ∧
      (edges ≠ [] → ∀ f ∈ u.frames, f.callee.isSome ∧ f.isProducerDeclaration = false ∧
        edges.length - 1 ≤ f.distance.toNat ∧ f.distance.toNat ≤ limit) ∧
      (limit + 2 ≤ edges.length → u.isEmpty) ∧
      ((∀ f ∈ t.frames, f.isProducerDeclaration = false) →
        (∀ f ∈ u.frames, edges.length ≤ f.distance.toNat) ∧
          (limit + 1 ≤ edges.length → u.isEmpty)) := by
  cases edges with
  | nil =>
      refine ⟨t, rfl, fun h => absurd rfl h, fun h => ?_, fun _ => ⟨fun f _ => Nat.zero_le _, ?_⟩⟩
      · cases h
      · intro h
        cases h
  | cons e edges =>
      obtain ⟨site, extra⟩ := e
      have hsite : site.maxDistance.toNat ≤ limit := hlimit (site, extra) (by simp)
      have hedges : ∀ e ∈ edges, e.1.maxDistance.toNat ≤ limit := fun e he =>
        hlimit e (by simp [he])
      have hfirst : (t.propagated site extra).Within (Travelled 0 limit) :=
        travelled_propagated ht hsite
      rw [propagateAlong_cons ht]
      obtain ⟨u, hu, hwithin⟩ := travelled_along edges hedges hfirst _
      rw [Nat.zero_add] at hwithin
      refine ⟨u, hu, fun _ f hf => ?_, fun hlong => ?_, fun hnone => ?_⟩
      · have htravelled : f.Travelled edges.length limit := hwithin.of_mem hf
        have hproducer := htravelled.not_isProducerDeclaration
        obtain ⟨hcallee, hleast, hmost⟩ := htravelled
        exact ⟨hcallee, hproducer, hleast, hmost⟩
      · rw [List.length_cons] at hlong
        exact isEmpty_of_travelled hwithin (by omega)
      · have hfirst' : (t.propagated site extra).Within (Travelled (0 + 1) limit) :=
          travelled_propagated_succ ht (fun f hf => ⟨hnone f hf, Nat.zero_le _⟩) hsite
        obtain ⟨u', hu', hwithin'⟩ := travelled_along edges hedges hfirst' _
        obtain rfl : u = u' := Except.ok.inj (hu.symm.trans hu')
        rw [Nat.zero_add, Nat.add_comm] at hwithin'
        refine ⟨fun f hf => (hwithin'.of_mem hf).2.1, fun hlong => ?_⟩
        exact isEmpty_of_travelled hwithin' hlong

/-- A producer may take one call more than the greatest distance, and no second one. -/
theorem propagateAlong_bounded_of_producer :
    let c : Context := ⟨.ofPreset .fast, []⟩
    let producer : Frame :=
      { Frame.declared ⟨"Source"⟩ (.ofRoot .anchor) with
        canonicalNames := .ofList [.template "read"] }
    let site : CallSite :=
      ⟨⟨⟨"LParser;.parse:(I)V"⟩, false⟩, .ofRoot (.argument 1), ⟨none, 1⟩, 1, [], []⟩
    (∀ e ∈ List.replicate 3 (site, MayAlways.bottom), e.1.maxDistance.toNat ≤ 1) ∧
      (∃ u, ((ofList [producer]).propagateAlong (List.replicate 2 (site, .bottom)) c).1 = .ok u ∧
        u.isEmpty = false) ∧
      ∃ u, ((ofList [producer]).propagateAlong (List.replicate 3 (site, .bottom)) c).1 = .ok u ∧
        u.isEmpty := by
  intro c producer site
  have hlimit : ∀ e ∈ List.replicate 3 (site, MayAlways.bottom), e.1.maxDistance.toNat ≤ 1 := by
    intro e he
    rw [List.eq_of_mem_replicate he]
    exact Nat.le_refl 1
  obtain ⟨u, hu, -, hempty, -⟩ := propagateAlong_bounded (valid_ofList [producer])
    (List.replicate 3 (site, .bottom)) 1 hlimit c
  refine ⟨hlimit, ?_, u, hu, hempty (by decide)⟩
  refine ⟨((ofList [producer]).propagated site .bottom).propagated site .bottom, ?_, ?_⟩
  · rfl
  · decide

end Taint
end TaintFlow
