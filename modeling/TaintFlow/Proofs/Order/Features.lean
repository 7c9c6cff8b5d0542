import TaintFlow.Feature.MayAlways
import TaintFlow.Proofs.Order.Laws

/-!
# The order of features

Sets are ordered by inclusion. May and always features are ordered so that a larger value tells of
more paths: it has more may-features and fewer always-features, and bottom tells of none. The joins
are least upper bounds for all values, well formed or not, and the meets are lower bounds.
-/
namespace TaintFlow

namespace SortedSet

variable {α : Type} [Ord α] [Std.TransOrd α]

theorem eq_of_subset {s t : SortedSet α} (hst : ∀ x, x ∈ s → x ∈ t) (hts : ∀ x, x ∈ t → x ∈ s) :
    s = t := ext fun x => ⟨hst x, hts x⟩

variable [Std.LawfulEqOrd α]

theorem isEmpty_union {s t : SortedSet α} : (s.union t).isEmpty = (s.isEmpty && t.isEmpty) := by
  rw [Bool.eq_iff_iff, Bool.and_eq_true, isEmpty_iff, isEmpty_iff, isEmpty_iff]
  simp only [mem_union, not_or, forall_and]

end SortedSet

namespace MayAlways

@[simp] theorem bottom_leq (a : MayAlways) : leq bottom a := rfl

@[simp] theorem sets_leq_bottom (may always : FeatureSet) : leq (sets may always) bottom = false :=
  rfl

@[simp] theorem sets_leq_sets {may always may' always' : FeatureSet} :
    leq (sets may always) (sets may' always') ↔
      (∀ x, x ∈ may → x ∈ may') ∧ ∀ x, x ∈ always' → x ∈ always := by
  simp only [leq, Bool.and_eq_true, SortedSet.isSubset_iff]

@[simp] theorem bottom_compose (e : MayAlways) : bottom.compose e = e := by
  cases e <;> rfl

@[simp] theorem compose_bottom (m : MayAlways) : m.compose bottom = m := by
  cases m <;> rfl

theorem leq_refl (a : MayAlways) : a.leq a := by
  cases a with
  | bottom => rfl
  | sets may always => exact sets_leq_sets.2 ⟨fun _ h => h, fun _ h => h⟩

theorem leq_trans {a b c : MayAlways} (hab : a.leq b) (hbc : b.leq c) : a.leq c := by
  cases a with
  | bottom => rfl
  | sets may always =>
      cases b with
      | bottom => simp at hab
      | sets may' always' =>
          cases c with
          | bottom => simp at hbc
          | sets may'' always'' =>
              rw [sets_leq_sets] at hab hbc ⊢
              exact ⟨fun x h => hbc.1 x (hab.1 x h), fun x h => hab.2 x (hbc.2 x h)⟩

theorem leq_antisymm {a b : MayAlways} (hab : a.leq b) (hba : b.leq a) : a = b := by
  cases a with
  | bottom =>
      cases b with
      | bottom => rfl
      | sets may always => simp at hba
  | sets may always =>
      cases b with
      | bottom => simp at hab
      | sets may' always' =>
          rw [sets_leq_sets] at hab hba
          rw [SortedSet.eq_of_subset hab.1 hba.1, SortedSet.eq_of_subset hba.2 hab.2]

theorem leq_join_left (a b : MayAlways) : a.leq (a.join b) := by
  cases a with
  | bottom => rfl
  | sets may always =>
      cases b with
      | bottom => exact leq_refl _
      | sets may' always' => simp +contextual [join]

theorem leq_join_right (a b : MayAlways) : b.leq (a.join b) := by
  cases b with
  | bottom => rfl
  | sets may always =>
      cases a with
      | bottom => exact leq_refl _
      | sets may' always' => simp +contextual [join]

theorem join_leq {a b c : MayAlways} (hac : a.leq c) (hbc : b.leq c) : (a.join b).leq c := by
  cases a with
  | bottom => cases b <;> exact hbc
  | sets may always =>
      cases b with
      | bottom => exact hac
      | sets may' always' =>
          cases c with
          | bottom => simp at hac
          | sets may'' always'' =>
              rw [sets_leq_sets] at hac hbc
              simp only [join, sets_leq_sets, SortedSet.mem_union, SortedSet.mem_inter]
              exact ⟨fun x h => h.elim (hac.1 x) (hbc.1 x), fun x h => ⟨hac.2 x h, hbc.2 x h⟩⟩

theorem joinLaws : JoinLaws fun _ : MayAlways => True where
  leq_refl _ := leq_refl _
  leq_trans _ _ _ := leq_trans
  leq_antisymm _ _ := leq_antisymm
  equals_iff _ _ := decide_eq_true_iff
  join_mem _ _ := trivial
  leq_join_left _ _ := leq_join_left _ _
  leq_join_right _ _ := leq_join_right _ _
  join_leq _ _ _ := join_leq
  widen_eq _ _ := rfl
  isBottom_join {a b} _ _ := by cases a <;> cases b <;> rfl
  leq_of_isBottom {a b} _ _ h := by
    cases a with
    | bottom => rfl
    | sets may always => cases h

theorem meet_leq_left (a b : MayAlways) : (a.meet b).leq a := by
  cases a with
  | bottom => rfl
  | sets may always =>
      cases b with
      | bottom => rfl
      | sets may' always' =>
          simp only [meet]
          split
          · simp +contextual
          · rfl

theorem meet_leq_right (a b : MayAlways) : (a.meet b).leq b := by
  cases a with
  | bottom => rfl
  | sets may always =>
      cases b with
      | bottom => rfl
      | sets may' always' =>
          simp only [meet]
          split
          · simp +contextual
          · rfl

end MayAlways
end TaintFlow
