import TaintFlow.Proofs.Order.Absorption
import TaintFlow.Proofs.Order.Semilattice
import TaintFlow.Proofs.Propagation.Features

/-!
# Adding features and the order

Features that are added hold besides those that are there. Where no path has been seen, they are all
there is: bottom is the identity of composition, but it is also below every value, and what is
certain on more paths is less. So features that are added to bottom and to a larger value can come
out in the wrong order. They do so exactly when something is certain of the larger value that is not
certain of them; all other values keep their order.
-/
namespace TaintFlow

namespace MayAlways

variable {x y e : MayAlways}

/-- What is certain of `y` is certain of `e`, unless `x` tells of some path or `e` adds nothing. -/
def KeepsOrder (e x y : MayAlways) : Prop :=
  x.isBottom → e.isBottom = false → ∀ f, f ∈ y.always → f ∈ e.always

theorem compose_comm (x e : MayAlways) : x.compose e = e.compose x := by
  cases x with
  | bottom => cases e <;> rfl
  | sets may always =>
      cases e with
      | bottom => rfl
      | sets may' always' =>
          simp only [compose]
          rw [SortedSet.union_comm may, SortedSet.union_comm always]

/-- Two values that tell of some path keep their order, whatever is added to both. -/
theorem compose_leq_compose (hxy : x.leq y) (hx : x.isBottom = false) :
    (x.compose e).leq (y.compose e) := by
  obtain ⟨hy, hmay, halways⟩ := leq_iff.1 hxy hx
  refine leq_iff.2 fun _ => ⟨?_, fun f hf => ?_, fun f hf => ?_⟩
  · rw [isBottom_compose, hy, Bool.false_and]
  · rw [mem_may_compose] at hf ⊢
    exact hf.imp_left (hmay f)
  · rw [mem_always_compose] at hf ⊢
    exact hf.imp_left (halways f)

theorem leq_compose_iff : e.leq (y.compose e) ↔
    (e.isBottom = false → ∀ f, f ∈ y.always → f ∈ e.always) := by
  rw [leq_iff]
  refine forall_congr' fun he => ?_
  simp only [isBottom_compose, he, Bool.and_false, mem_may_compose, mem_always_compose, true_and]
  constructor
  · intro hboth f hf
    exact hboth.2 f (.inl hf)
  · intro hcertain
    exact ⟨fun f hf => .inr hf, fun f hf => hf.elim (hcertain f) id⟩

theorem compose_leq_compose_iff (hxy : x.leq y) :
    (x.compose e).leq (y.compose e) ↔ e.KeepsOrder x y := by
  cases x with
  | bottom =>
      rw [bottom_compose, leq_compose_iff]
      exact ⟨fun hcertain _ => hcertain, fun hkept => hkept rfl⟩
  | sets may always =>
      refine iff_of_true (compose_leq_compose hxy rfl) fun hbottom => ?_
      cases hbottom

end MayAlways

namespace Frame

variable {f g : Frame} {e : MayAlways}

theorem addInferredFeatures_leq_iff (hfg : f.leq g) :
    (f.addInferredFeatures e).leq (g.addInferredFeatures e) ↔
      e.KeepsOrder f.locallyInferred g.locallyInferred := by
  obtain ⟨d, o, fo, i, li, u, vt, vv, lp, cn⟩ := leq_iff.1 hfg
  rw [← MayAlways.compose_leq_compose_iff li, leq_iff]
  constructor
  · intro hall
    exact hall.2.2.2.2.1
  · intro hkept
    exact ⟨d, o, fo, i, hkept, u, vt, vv, lp, cn⟩

end Frame

namespace Taint

variable {a b t : Taint} {e : MayAlways}

/-- Features that hold something keep the order of all frames that stand under one kind and key. -/
def KeepsOrder (e : MayAlways) (a b : Taint) : Prop :=
  e.isEmpty = false → ∀ kind key f g, a.frame? kind key = some f → b.frame? kind key = some g →
    e.KeepsOrder f.locallyInferred g.locallyInferred

theorem addInferredFeatures_of_isEmpty (he : e.isEmpty) : t.addInferredFeatures e = t := by
  rw [addInferredFeatures, if_pos he]

theorem addInferredFeatures_of_not_isEmpty (he : e.isEmpty = false) :
    t.addInferredFeatures e = t.map (·.addInferredFeatures e) := by
  rw [addInferredFeatures, he, if_neg Bool.false_ne_true]

theorem valid_addInferredFeatures (ht : t.Valid) (e : MayAlways) :
    (t.addInferredFeatures e).Valid := by
  unfold addInferredFeatures
  split
  · exact ht
  · exact valid_map ht fun _ => rfl

theorem addInferredFeatures_leq_iff (ha : a.Valid) (hb : b.Valid) (hab : a.leq b) :
    (a.addInferredFeatures e).leq (b.addInferredFeatures e) ↔ KeepsOrder e a b := by
  cases he : e.isEmpty with
  | true =>
      rw [addInferredFeatures_of_isEmpty he, addInferredFeatures_of_isEmpty he]
      refine iff_of_true hab fun hsome => ?_
      cases he.symm.trans hsome
  | false =>
      have hvalid {t : Taint} (ht : t.Valid) : (t.map (·.addInferredFeatures e)).Valid :=
        valid_map ht fun _ => rfl
      have hframe? {t : Taint} (ht : t.Valid) (kind : Kind) (key : FrameKey) :
          (t.map (·.addInferredFeatures e)).frame? kind key =
            (t.frame? kind key).map (·.addInferredFeatures e) :=
        frame?_map ht (fun _ => rfl) fun _ => rfl
      have habove := (leq_iff_frame? ha hb).1 hab
      rw [addInferredFeatures_of_not_isEmpty he, addInferredFeatures_of_not_isEmpty he,
        leq_iff_frame? (hvalid ha) (hvalid hb), KeepsOrder, forall_prop_of_true he]
      simp only [hframe? ha, hframe? hb]
      refine forall₂_congr fun kind key => ?_
      constructor
      · intro hall f g hf hg
        obtain ⟨g', hg', hle⟩ := habove kind key f hf
        obtain rfl := Option.some.inj (hg.symm.trans hg')
        obtain ⟨c, hc, hadded⟩ := hall _ (congrArg (Option.map _) hf)
        rw [hg] at hc
        cases hc
        exact (Frame.addInferredFeatures_leq_iff hle).1 hadded
      · intro hkept c hc
        obtain ⟨f, hf, rfl⟩ := Option.map_eq_some_iff.1 hc
        obtain ⟨g, hg, hle⟩ := habove kind key f hf
        refine ⟨g.addInferredFeatures e, ?_, ?_⟩
        · rw [hg]
          rfl
        · exact (Frame.addInferredFeatures_leq_iff hle).2 (hkept f g hf hg)

theorem isEmpty_addInferredFeatures (h : t.isEmpty) : (t.addInferredFeatures e).isEmpty := by
  have hsets : t.sets = ∅ := Grouped.eq_empty_of_isEmpty h
  unfold addInferredFeatures
  split
  · exact h
  · rw [map, hsets]
    rfl

end Taint

namespace CallPositionFrames

variable {c d : CallPositionFrames} {position : Option Position}

theorem At.addInferredFeatures (hc : c.At position) (e : MayAlways) :
    (c.addInferredFeatures e).At position := by
  rw [addInferredFeatures_eq]
  exact ⟨Taint.valid_addInferredFeatures hc.1 e, hc.2.imp_left Taint.isEmpty_addInferredFeatures⟩

end CallPositionFrames

/-- Features that are added on either side of two values keep their order, except where nothing is
known of the smaller value and something is certain of the larger one that is not certain of what is
added. The same exception decides it for taint, frame by frame, and for the frames at one call
position, where it never comes to a fault. -/
theorem addFeatures_leq_iff (e : MayAlways) :
    (∀ x y : MayAlways, x.leq y →
      ((x.compose e).leq (y.compose e) ↔ e.KeepsOrder x y) ∧
      ((e.compose x).leq (e.compose y) ↔ e.KeepsOrder x y)) ∧
    (∀ a b : Taint, a.Valid → b.Valid → a.leq b →
      ((a.addInferredFeatures e).leq (b.addInferredFeatures e) ↔ Taint.KeepsOrder e a b)) ∧
    ∀ position (c d : CallPositionFrames), c.At position → d.At position → c.leq d = .ok true →
      ∃ kept : Bool, (c.addInferredFeatures e).leq (d.addInferredFeatures e) = .ok kept ∧
        (kept ↔ Taint.KeepsOrder e c.toTaint d.toTaint) := by
  refine ⟨fun x y hxy => ⟨?_, ?_⟩, fun a b ha hb hab => ?_, fun position c d hc hd hcd => ?_⟩
  · exact MayAlways.compose_leq_compose_iff hxy
  · rw [MayAlways.compose_comm e, MayAlways.compose_comm e]
    exact MayAlways.compose_leq_compose_iff hxy
  · exact Taint.addInferredFeatures_leq_iff ha hb hab
  · have hleq : c.toTaint.leq d.toTaint := Except.ok.inj ((hc.combined_eq hd _).symm.trans hcd)
    refine ⟨_, (hc.addInferredFeatures e).combined_eq (hd.addInferredFeatures e) _, ?_⟩
    rw [c.addInferredFeatures_eq, d.addInferredFeatures_eq]
    exact Taint.addInferredFeatures_leq_iff hc.1 hd.1 hleq

/-- Nothing is known of the smaller frame, and what is certain of the larger one is certain of what
is added as well. -/
theorem addFeatures_leq_of_certain :
    let e : MayAlways := .ofAlways (.ofList [⟨"checked"⟩])
    let y : MayAlways := .ofSets (.ofList [⟨"seen"⟩]) (.ofList [⟨"checked"⟩])
    let f : Frame := .declared ⟨"Source"⟩ (.ofRoot .leaf)
    let a := Taint.ofList [f]
    let b := Taint.ofList [{ f with locallyInferred := y }]
    let c : CallPositionFrames := ⟨none, a.sets⟩
    let d : CallPositionFrames := ⟨none, b.sets⟩
    a.Valid ∧ b.Valid ∧ a.leq b ∧ c.leq d = .ok true ∧
      (MayAlways.bottom.compose e).leq (y.compose e) ∧
      (e.compose .bottom).leq (e.compose y) ∧
      (a.addInferredFeatures e).leq (b.addInferredFeatures e) ∧
      (c.addInferredFeatures e).leq (d.addInferredFeatures e) = .ok true := by
  intro e y f a b c d
  have ha : a.Valid := Taint.valid_ofList _
  have hb : b.Valid := Taint.valid_ofList _
  have hab : a.leq b := by decide
  have hc : c.At none := ⟨ha, .inr rfl⟩
  have hd : d.At none := ⟨hb, .inr rfl⟩
  have hcd : c.leq d = .ok true := (hc.combined_eq hd _).trans (congrArg Except.ok hab)
  have hkept : e.KeepsOrder .bottom y := fun _ _ _ hx => hx
  have hframes : Taint.KeepsOrder e a b := by
    intro _ kind key g g' hg hg'
    have hg := Taint.mem_frames_of_frame? ha hg
    have hg' := Taint.mem_frames_of_frame? hb hg'
    rw [List.mem_singleton.1 hg, List.mem_singleton.1 hg']
    exact hkept
  obtain ⟨hvalues, htaint, hcalls⟩ := addFeatures_leq_iff e
  obtain ⟨hright, hleft⟩ := hvalues .bottom y rfl
  obtain ⟨kept, heq, hkeeps⟩ := hcalls none c d hc hd hcd
  rw [heq, hkeeps.2 hframes]
  exact ⟨ha, hb, hab, hcd, hright.2 hkept, hleft.2 hkept, (htaint a b ha hb hab).2 hframes, rfl⟩

/-- Bottom takes over features that are not certain, and comes to stand above a value of which
something is certain. -/
theorem compose_not_leq_of_bottom :
    let e : MayAlways := .ofMay (.ofList [⟨"seen"⟩])
    let y : MayAlways := .ofAlways (.ofList [⟨"checked"⟩])
    let f : Frame := .declared ⟨"Source"⟩ (.ofRoot .leaf)
    let a := Taint.ofList [f]
    let b := Taint.ofList [{ f with locallyInferred := y }]
    MayAlways.bottom.leq y ∧ (MayAlways.bottom.compose e).leq (y.compose e) = false ∧
      (e.compose .bottom).leq (e.compose y) = false ∧
      a.Valid ∧ b.Valid ∧ a.leq b ∧
      (a.addInferredFeatures e).leq (b.addInferredFeatures e) = false := by
  intro e y f a b
  refine ⟨by decide, by decide, by decide, Taint.valid_ofList _, Taint.valid_ofList _, ?_, ?_⟩
  · decide
  · decide

end TaintFlow
