/-!
# Strictly ascending lists

A list that strictly ascends under a comparison holds every class of equal elements at most once,
and its members determine it: two ascending lists with the same members are one list. Sets and
tables of the library are such lists, so that equality of values is equality of representations
and no order of insertion can be observed.
-/
namespace TaintFlow

/-- Every earlier element of the list is strictly below every later one. -/
def Ascending {α : Type} (cmp : α → α → Ordering) (l : List α) : Prop :=
  l.Pairwise fun a b => cmp a b = .lt

namespace Ascending

variable {α : Type} {cmp : α → α → Ordering}

/-- Put `x` at its place; an element equal to `x` under the comparison gives way to it. -/
def insert (cmp : α → α → Ordering) (x : α) : List α → List α
  | [] => [x]
  | y :: r =>
    match cmp x y with
    | .lt => x :: y :: r
    | .eq => x :: r
    | .gt => y :: insert cmp x r

theorem nil : Ascending cmp [] := List.Pairwise.nil

theorem singleton (x : α) : Ascending cmp [x] := List.pairwise_singleton _ x

theorem filter {l : List α} (h : Ascending cmp l) (p : α → Bool) : Ascending cmp (l.filter p) :=
  List.Pairwise.filter p h

theorem mem_insert_subset {x z : α} {l : List α} (h : z ∈ insert cmp x l) : z = x ∨ z ∈ l := by
  induction l with
  | nil => simpa [insert] using h
  | cons y r ih =>
    unfold insert at h
    cases hc : cmp x y <;> simp only [hc] at h <;> grind

variable [Std.TransCmp cmp]

theorem insert_ascending (x : α) {l : List α} (h : Ascending cmp l) :
    Ascending cmp (insert cmp x l) := by
  induction l with
  | nil => exact singleton x
  | cons y r ih =>
    obtain ⟨hy, hr⟩ := List.pairwise_cons.1 h
    unfold insert
    cases hc : cmp x y with
    | lt =>
      refine List.pairwise_cons.2 ⟨fun z hz => ?_, h⟩
      rcases List.mem_cons.1 hz with rfl | hz
      · exact hc
      · exact Std.TransCmp.lt_trans hc (hy z hz)
    | eq =>
      exact List.pairwise_cons.2 ⟨fun z hz => Std.TransCmp.lt_of_eq_of_lt hc (hy z hz), hr⟩
    | gt =>
      refine List.pairwise_cons.2 ⟨fun z hz => ?_, ih hr⟩
      rcases mem_insert_subset hz with rfl | hz
      · exact Std.OrientedCmp.lt_of_gt hc
      · exact hy z hz

/-- The members after an insertion: the new element, and the old ones it does not replace. -/
theorem mem_insert {x z : α} {l : List α} (h : Ascending cmp l) :
    z ∈ insert cmp x l ↔ z = x ∨ (z ∈ l ∧ cmp x z ≠ .eq) := by
  induction l with
  | nil => simp [insert]
  | cons y r ih =>
    obtain ⟨hy, hr⟩ := List.pairwise_cons.1 h
    unfold insert
    cases hc : cmp x y with
    | lt =>
      have above : ∀ w ∈ r, cmp x w = .lt := fun w hw => Std.TransCmp.lt_trans hc (hy w hw)
      grind
    | eq =>
      have above : ∀ w ∈ r, cmp x w = .lt := fun w hw =>
        Std.TransCmp.lt_of_eq_of_lt hc (hy w hw)
      grind
    | gt =>
      have := ih hr
      grind

/-- Members determine an ascending list. -/
theorem eq_of_mem_iff {l₁ l₂ : List α} (h₁ : Ascending cmp l₁) (h₂ : Ascending cmp l₂)
    (h : ∀ x, x ∈ l₁ ↔ x ∈ l₂) : l₁ = l₂ := by
  induction l₁ generalizing l₂ with
  | nil =>
    cases l₂ with
    | nil => rfl
    | cons b t => simpa using (h b).2 (by simp)
  | cons a s ih =>
    cases l₂ with
    | nil => simpa using (h a).1 (by simp)
    | cons b t =>
      obtain ⟨ha, hs⟩ := List.pairwise_cons.1 h₁
      obtain ⟨hb, ht⟩ := List.pairwise_cons.1 h₂
      have irrefl : ∀ x, cmp x x ≠ .lt := fun x => by simp [Std.ReflCmp.compare_self]
      have asymm : ∀ x y, cmp x y = .lt → cmp y x ≠ .lt := fun x y hxy hyx =>
        irrefl x (Std.TransCmp.lt_trans hxy hyx)
      have hab : a = b := by
        have := (h a).1 (by simp)
        have := (h b).2 (by simp)
        grind
      subst hab
      rw [ih hs ht fun x => ?_]
      have := h x
      grind

end Ascending
end TaintFlow
