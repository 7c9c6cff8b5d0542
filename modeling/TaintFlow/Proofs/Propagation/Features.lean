import TaintFlow.Proofs.Order.Frame
import TaintFlow.Propagation.FrameSet

/-!
# Features behind a call

Behind a call the features of several paths are joined, and then those of the call instruction are
added. What may hold there grows with what may hold in front of the call. What is certain does not
behave that way: it is certain on every path, and a path on which more is known, say because the user
gave features to a frame, makes more features certain although the frame has become larger.
-/
namespace TaintFlow

namespace SortedSet

variable {α β : Type} [Ord α] [Std.TransOrd α]

/-- The parts of all members of a list in one set. -/
def unionOf (part : β → SortedSet α) (bs : List β) : SortedSet α :=
  bs.foldl (fun acc b => acc.union (part b)) ∅

omit [Std.TransOrd α] in
@[simp] theorem not_mem_emptyCollection (x : α) : x ∉ (∅ : SortedSet α) := not_mem_empty x

variable [Std.LawfulEqOrd α] {part : β → SortedSet α} {bs cs : List β} {x : α}

theorem mem_foldl_union {s : SortedSet α} :
    x ∈ bs.foldl (fun acc b => acc.union (part b)) s ↔ x ∈ s ∨ ∃ b ∈ bs, x ∈ part b := by
  induction bs generalizing s with
  | nil => simp
  | cons b bs ih =>
      rw [List.foldl_cons, ih, mem_union, or_assoc]
      simp only [List.mem_cons, exists_eq_or_imp]

theorem mem_unionOf : x ∈ unionOf part bs ↔ ∃ b ∈ bs, x ∈ part b := by
  rw [unionOf, mem_foldl_union]
  exact or_iff_right (not_mem_empty x)

theorem forall_mem_unionOf {q : α → Prop} :
    (∀ x, x ∈ unionOf part bs → q x) ↔ ∀ b ∈ bs, ∀ x, x ∈ part b → q x := by
  simp only [mem_unionOf]
  constructor
  · intro h b hb x hx
    exact h x ⟨b, hb, hx⟩
  · intro h x hfound
    obtain ⟨b, hb, hx⟩ := hfound
    exact h b hb x hx

theorem unionOf_append : unionOf part (bs ++ cs) = (unionOf part bs).union (unionOf part cs) := by
  apply ext
  simp [mem_unionOf, or_and_right, exists_or]

theorem unionOf_singleton {b : β} : unionOf part [b] = part b := by
  apply ext
  simp [mem_unionOf]

theorem unionOf_subset_iff : (∀ x, x ∈ unionOf part bs → x ∈ unionOf part cs) ↔
    ∀ b ∈ bs, ∀ x, x ∈ part b → ∃ c ∈ cs, x ∈ part c := by
  rw [forall_mem_unionOf]
  simp only [mem_unionOf]

end SortedSet

namespace MayAlways

variable {m e : MayAlways} {ms ns : List MayAlways} {x : Feature}

theorem leq_iff : m.leq e ↔ (m.isBottom = false → e.isBottom = false ∧
    (∀ x, x ∈ m.may → x ∈ e.may) ∧ ∀ x, x ∈ e.always → x ∈ m.always) := by
  cases m with
  | bottom => simp [isBottom]
  | sets may always =>
      cases e with
      | bottom => simp [isBottom]
      | sets may' always' =>
          rw [sets_leq_sets]
          simp [isBottom, MayAlways.may, MayAlways.always]

theorem isBottom_compose : (m.compose e).isBottom = (m.isBottom && e.isBottom) := by
  cases m <;> cases e <;> rfl

theorem mem_may_compose : x ∈ (m.compose e).may ↔ x ∈ m.may ∨ x ∈ e.may := by
  cases m <;> cases e <;> simp [compose, MayAlways.may]

theorem mem_always_compose : x ∈ (m.compose e).always ↔ x ∈ m.always ∨ x ∈ e.always := by
  cases m <;> cases e <;> simp [compose, MayAlways.always]

theorem isBottom_join : (m.join e).isBottom = (m.isBottom && e.isBottom) := by
  cases m <;> cases e <;> rfl

theorem mem_may_join : x ∈ (m.join e).may ↔ x ∈ m.may ∨ x ∈ e.may := by
  cases m <;> cases e <;> simp [join, MayAlways.may]

theorem isBottom_addAllAlways {fs : List Feature} :
    (m.addAllAlways fs).isBottom = (m.isBottom && fs.isEmpty) := by
  induction fs generalizing m with
  | nil => exact (Bool.and_true _).symm
  | cons f fs ih =>
      rw [addAllAlways, List.foldl_cons, ← addAllAlways, ih]
      simp [addAlways, isBottom]

theorem mem_may_addAllAlways {fs : List Feature} :
    x ∈ (m.addAllAlways fs).may ↔ x ∈ m.may ∨ x ∈ fs := by
  induction fs generalizing m with
  | nil => simp [addAllAlways]
  | cons f fs ih =>
      rw [addAllAlways, List.foldl_cons, ← addAllAlways, ih]
      simp only [addAlways, MayAlways.may, SortedSet.mem_insert, List.mem_cons]
      grind

theorem mem_always_addAllAlways {fs : List Feature} :
    x ∈ (m.addAllAlways fs).always ↔ x ∈ m.always ∨ x ∈ fs := by
  induction fs generalizing m with
  | nil => simp [addAllAlways]
  | cons f fs ih =>
      rw [addAllAlways, List.foldl_cons, ← addAllAlways, ih]
      simp only [addAlways, MayAlways.always, SortedSet.mem_insert, List.mem_cons]
      grind

def joinAll (ms : List MayAlways) : MayAlways := ms.foldl join bottom

theorem joinAll_singleton : joinAll [m] = m := by
  cases m <;> rfl

/-- Something is known of one of the paths at least. -/
def Known (ms : List MayAlways) : Prop := ∃ m ∈ ms, m.isBottom = false

/-- The feature holds on every path of which anything is known, and there is such a path. -/
def Certain (ms : List MayAlways) (x : Feature) : Prop :=
  Known ms ∧ ∀ m ∈ ms, m.isBottom = false → x ∈ m.always

theorem isBottom_foldl_join : (ms.foldl join m).isBottom = false ↔ Known (m :: ms) := by
  induction ms generalizing m with
  | nil => simp [Known]
  | cons e ms ih =>
      rw [List.foldl_cons, ih]
      simp only [Known, List.mem_cons, exists_eq_or_imp, isBottom_join, Bool.and_eq_false_iff,
        or_assoc]

theorem mem_may_foldl_join : x ∈ (ms.foldl join m).may ↔ ∃ n ∈ m :: ms, x ∈ n.may := by
  induction ms generalizing m with
  | nil => simp
  | cons e ms ih =>
      rw [List.foldl_cons, ih]
      simp [mem_may_join, or_assoc]

/-- Two paths that are joined first count as two. -/
theorem certain_join_cons : Certain (m.join e :: ms) x ↔ Certain (m :: e :: ms) x := by
  cases m with
  | bottom => cases e <;> simp [Certain, Known, join, isBottom]
  | sets may always =>
      cases e with
      | bottom => simp [Certain, Known, join, isBottom]
      | sets may' always' => simp [Certain, Known, join, isBottom, MayAlways.always, and_assoc]

theorem mem_always_foldl_join : x ∈ (ms.foldl join m).always ↔ Certain (m :: ms) x := by
  induction ms generalizing m with
  | nil => cases m <;> simp [Certain, Known, isBottom, MayAlways.always]
  | cons e ms ih =>
      rw [List.foldl_cons, ih]
      exact certain_join_cons

theorem isBottom_joinAll : (joinAll ms).isBottom = false ↔ Known ms := by
  rw [joinAll, isBottom_foldl_join]
  simp [Known, isBottom]

theorem mem_may_joinAll : x ∈ (joinAll ms).may ↔ ∃ m ∈ ms, x ∈ m.may := by
  rw [joinAll, mem_may_foldl_join]
  simp [MayAlways.may]

theorem mem_always_joinAll : x ∈ (joinAll ms).always ↔ Certain ms x := by
  rw [joinAll, mem_always_foldl_join]
  simp [Certain, Known, isBottom]

theorem joinAll_leq_iff : (joinAll ms).leq e ↔ ∀ m ∈ ms, m.leq e := by
  have hfold : (ms.foldl join bottom).leq e ↔ bottom.leq e ∧ ∀ m ∈ ms, m.leq e :=
    joinLaws.foldl_join_leq_iff trivial (fun _ _ => trivial) trivial
  exact hfold.trans (and_iff_right (bottom_leq e))

/-- Features behind a call whose instruction has the features `extra`. -/
def behind (extra m : MayAlways) : MayAlways := if extra.isEmpty then m else m.compose extra

theorem isBottom_of_isEmpty_eq_false (h : m.isEmpty = false) : m.isBottom = false := by
  cases m with
  | bottom => exact h
  | sets may always => rfl

theorem not_mem_may_of_isEmpty (h : m.isEmpty) : x ∉ m.may := SortedSet.isEmpty_iff.1 h x

theorem isBottom_behind :
    (behind e m).isBottom = false ↔ e.isEmpty = false ∨ m.isBottom = false := by
  unfold behind
  split
  · simp_all
  · rename_i hsome
    rw [Bool.not_eq_true] at hsome
    simp [isBottom_compose, isBottom_of_isEmpty_eq_false hsome, hsome]

theorem mem_may_behind : x ∈ (behind e m).may ↔ x ∈ m.may ∨ x ∈ e.may := by
  unfold behind
  split
  · rename_i hnone
    exact (or_iff_left (not_mem_may_of_isEmpty hnone)).symm
  · exact mem_may_compose

theorem mem_always_behind :
    x ∈ (behind e m).always ↔ x ∈ m.always ∨ e.isEmpty = false ∧ x ∈ e.always := by
  unfold behind
  split
  · simp_all
  · simp_all [mem_always_compose]

/-- What is certain on the paths `ns` is certain on the paths `ms`, or by the call instruction;
nothing is asked when nothing is known of the paths `ms` and of the instruction. -/
def CertaintyKept (extra : MayAlways) (ms ns : List MayAlways) : Prop :=
  extra.isEmpty = false ∨ Known ms →
    ∀ x, Certain ns x → Certain ms x ∨ extra.isEmpty = false ∧ x ∈ extra.always

/-- Certainty is kept when each path is below another one and the instruction adds nothing. -/
theorem certaintyKept_of_leq {extra : MayAlways} (hextra : extra.isEmpty)
    (hle : ∀ m ∈ ms, ∃ n ∈ ns, m.leq n) : CertaintyKept extra ms ns := by
  intro hknown x hx
  rw [hextra] at hknown
  have hms : Known ms := hknown.resolve_left Bool.noConfusion
  refine .inl ⟨hms, fun m hm hbottom => ?_⟩
  obtain ⟨n, hn, hmn⟩ := hle m hm
  obtain ⟨hn', -, halways⟩ := leq_iff.1 hmn hbottom
  exact halways x (hx.2 n hn hn')

theorem isBottom_of_mem_always (h : x ∈ m.always) : m.isBottom = false := by
  cases m with
  | bottom => exact absurd h (SortedSet.not_mem_emptyCollection x)
  | sets may always => rfl

theorem isBottom_of_mem_may (h : x ∈ m.may) : m.isBottom = false := by
  cases m with
  | bottom => exact absurd h (SortedSet.not_mem_emptyCollection x)
  | sets may always => rfl

/-- Joined features behind a call are below others exactly when these know of as many paths, may
hold as much, and are certain of no more. -/
theorem behind_joinAll_leq_iff {extra : MayAlways} :
    (behind extra (joinAll ms)).leq (behind extra (joinAll ns)) ↔
      (Known ms → extra.isEmpty = false ∨ Known ns) ∧
      (∀ m ∈ ms, ∀ x, x ∈ m.may → x ∈ extra.may ∨ ∃ n ∈ ns, x ∈ n.may) ∧
      CertaintyKept extra ms ns := by
  simp only [leq_iff, isBottom_behind, isBottom_joinAll, mem_may_behind, mem_always_behind,
    mem_may_joinAll, mem_always_joinAll]
  constructor
  · intro h
    refine ⟨fun hms => (h (.inr hms)).1, fun m hm x hx => ?_, fun hknown x hx => ?_⟩
    · have hknown : Known ms := ⟨m, hm, isBottom_of_mem_may hx⟩
      exact ((h (.inr hknown)).2.1 x (.inl ⟨m, hm, hx⟩)).symm
    · exact (h hknown).2.2 x (.inl hx)
  · intro hboth hsome
    obtain ⟨hknown, hmay, hcertain⟩ := hboth
    refine ⟨hsome.elim .inl hknown, ?_, ?_⟩
    · intro x heither
      rcases heither with ⟨m, hm, hx⟩ | hx
      · exact (hmay m hm x hx).symm
      · exact .inr hx
    · intro x heither
      rcases heither with hx | hx
      · exact hcertain hsome x hx
      · exact .inr hx

end MayAlways

namespace Frame

variable {f g : Frame} {site : CallSite} {constants : List (Option String)}

theorem mem_viaTypeFeatures (h : f.leq g) {x : Feature} (hx : x ∈ f.viaTypeFeatures site) :
    x ∈ g.viaTypeFeatures site := by
  obtain ⟨-, -, -, -, -, -, htypes, -⟩ := leq_iff.1 h
  obtain ⟨port, hport, hfeature⟩ := List.mem_filterMap.1 hx
  exact List.mem_filterMap.2 ⟨port, htypes port hport, hfeature⟩

theorem mem_viaValueFeatures (h : f.leq g) {x : Feature} (hx : x ∈ f.viaValueFeatures constants) :
    x ∈ g.viaValueFeatures constants := by
  obtain ⟨-, -, -, -, -, -, -, hvalues, -⟩ := leq_iff.1 h
  obtain ⟨port, hport, hfeature⟩ := List.mem_filterMap.1 hx
  exact List.mem_filterMap.2 ⟨port, hvalues port hport, hfeature⟩

theorem mem_may_contribution {x : Feature} : x ∈ (f.contribution site constants).may ↔
    x ∈ f.inferred.may ∨ x ∈ f.locallyInferred.may ∨ x ∈ f.userFeatures ∨
      x ∈ f.viaTypeFeatures site ∨ x ∈ f.viaValueFeatures constants := by
  simp only [contribution, features, MayAlways.mem_may_addAllAlways, MayAlways.mem_may_compose,
    SortedSet.mem_toList, or_assoc]

theorem isBottom_contribution : (f.contribution site constants).isBottom =
    (f.inferred.isBottom && f.locallyInferred.isBottom && f.userFeatures.toList.isEmpty &&
      (f.viaTypeFeatures site).isEmpty && (f.viaValueFeatures constants).isEmpty) := by
  simp only [contribution, features, MayAlways.isBottom_addAllAlways, MayAlways.isBottom_compose]

theorem may_contribution_mono (h : f.leq g) {x : Feature}
    (hx : x ∈ (f.contribution site constants).may) : x ∈ (g.contribution site constants).may := by
  obtain ⟨-, -, -, hinferred, hlocal, huser, -, -, -, -⟩ := leq_iff.1 h
  rw [mem_may_contribution] at hx ⊢
  rcases hx with hx | hx | hx | hx | hx
  · have hknown := MayAlways.isBottom_of_mem_may hx
    exact .inl ((MayAlways.leq_iff.1 hinferred hknown).2.1 x hx)
  · have hknown := MayAlways.isBottom_of_mem_may hx
    exact .inr (.inl ((MayAlways.leq_iff.1 hlocal hknown).2.1 x hx))
  · exact .inr (.inr (.inl (huser x hx)))
  · exact .inr (.inr (.inr (.inl (mem_viaTypeFeatures h hx))))
  · exact .inr (.inr (.inr (.inr (mem_viaValueFeatures h hx))))

/-- When nothing is known on the path of the larger frame, nothing is on that of the smaller one. -/
theorem isBottom_contribution_anti (h : f.leq g)
    (hg : (g.contribution site constants).isBottom) :
    (f.contribution site constants).isBottom := by
  have hempty {α : Type} {as bs : List α} (hsub : ∀ a, a ∈ as → a ∈ bs) (hbs : bs.isEmpty) :
      as.isEmpty := by
    rw [List.isEmpty_iff] at hbs ⊢
    rw [hbs] at hsub
    exact List.eq_nil_iff_forall_not_mem.2 fun a ha => List.not_mem_nil (hsub a ha)
  have hbottom {m e : MayAlways} (hle : m.leq e) (he : e.isBottom) : m.isBottom := by
    apply Bool.of_not_eq_false
    intro hm
    have hnone := (MayAlways.leq_iff.1 hle hm).1
    rw [he] at hnone
    cases hnone
  obtain ⟨-, -, -, hinferred, hlocal, huser, -, -, -, -⟩ := leq_iff.1 h
  rw [isBottom_contribution] at hg ⊢
  simp only [Bool.and_eq_true] at hg ⊢
  obtain ⟨⟨⟨⟨hi, hl⟩, hu⟩, ht⟩, hv⟩ := hg
  refine ⟨⟨⟨⟨hbottom hinferred hi, hbottom hlocal hl⟩, hempty huser hu⟩, ?_⟩, ?_⟩
  · exact hempty (fun _ hx => mem_viaTypeFeatures h hx) ht
  · exact hempty (fun _ hx => mem_viaValueFeatures h hx) hv

theorem mem_always_contribution {x : Feature} : x ∈ (f.contribution site constants).always ↔
    x ∈ f.inferred.always ∨ x ∈ f.locallyInferred.always ∨ x ∈ f.userFeatures ∨
      x ∈ f.viaTypeFeatures site ∨ x ∈ f.viaValueFeatures constants := by
  simp only [contribution, features, MayAlways.mem_always_addAllAlways,
    MayAlways.mem_always_compose, SortedSet.mem_toList, or_assoc]

/-- The frames have the same features for certain besides inferred ones, and know of the same
inferences. -/
structure Agrees (f g : Frame) : Prop where
  userFeatures : f.userFeatures = g.userFeatures
  viaTypePorts : f.viaTypePorts = g.viaTypePorts
  viaValuePorts : f.viaValuePorts = g.viaValuePorts
  inferred : f.inferred.isBottom = g.inferred.isBottom
  locallyInferred : f.locallyInferred.isBottom = g.locallyInferred.isBottom

theorem contribution_leq (h : f.leq g) (hagree : f.Agrees g) :
    (f.contribution site constants).leq (g.contribution site constants) := by
  have halways {m e : MayAlways} (hle : m.leq e) (hbottom : m.isBottom = e.isBottom) {x : Feature}
      (hx : x ∈ e.always) : x ∈ m.always := by
    have he := MayAlways.isBottom_of_mem_always hx
    exact (MayAlways.leq_iff.1 hle (hbottom.trans he)).2.2 x hx
  obtain ⟨-, -, -, hinferred, hlocal, -, -, -, -, -⟩ := leq_iff.1 h
  refine MayAlways.leq_iff.2 fun hf => ⟨?_, fun x hx => may_contribution_mono h hx, ?_⟩
  · rw [← Bool.not_eq_true] at hf ⊢
    exact fun hg => hf (isBottom_contribution_anti h hg)
  · intro x hx
    rw [mem_always_contribution] at hx ⊢
    rw [viaTypeFeatures, viaValueFeatures, hagree.userFeatures, hagree.viaTypePorts,
      hagree.viaValuePorts]
    rcases hx with hx | hx | hx
    · exact .inl (halways hinferred hagree.inferred hx)
    · exact .inr (.inl (halways hlocal hagree.locallyInferred hx))
    · exact .inr (.inr hx)

end Frame
end TaintFlow
