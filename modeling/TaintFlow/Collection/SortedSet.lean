import TaintFlow.Collection.Ascending

/-!
# Sorted sets

A finite set kept as the ascending list of its members. The list is determined by the members
(`ext`), so a union, an intersection or an insertion is pinned down by its membership lemma alone.
-/
namespace TaintFlow

/-- A finite set of `α`, listed in ascending order without duplicates. -/
structure SortedSet (α : Type) [Ord α] where
  toList : List α
  ascending : Ascending compare toList
deriving DecidableEq, Repr

namespace SortedSet

variable {α : Type} [Ord α]

instance : Membership α (SortedSet α) := ⟨fun s x => x ∈ s.toList⟩

instance [DecidableEq α] (x : α) (s : SortedSet α) : Decidable (x ∈ s) :=
  inferInstanceAs (Decidable (x ∈ s.toList))

def empty : SortedSet α := ⟨[], Ascending.nil⟩

instance : EmptyCollection (SortedSet α) := ⟨empty⟩
instance : Inhabited (SortedSet α) := ⟨empty⟩

def isEmpty (s : SortedSet α) : Bool := s.toList.isEmpty

def size (s : SortedSet α) : Nat := s.toList.length

def filter (p : α → Bool) (s : SortedSet α) : SortedSet α :=
  ⟨s.toList.filter p, s.ascending.filter p⟩

def inter [DecidableEq α] (s t : SortedSet α) : SortedSet α := s.filter fun x => decide (x ∈ t)

def isSubset [DecidableEq α] (s t : SortedSet α) : Bool := s.toList.all fun x => decide (x ∈ t)

section Insertion

variable [Std.TransOrd α]

def insert (s : SortedSet α) (x : α) : SortedSet α :=
  ⟨Ascending.insert compare x s.toList, Ascending.insert_ascending x s.ascending⟩

/-- Insert the members of a list one after the other. -/
def insertAll (s : SortedSet α) (xs : List α) : SortedSet α := xs.foldl insert s

def ofList (xs : List α) : SortedSet α := empty.insertAll xs

def union (s t : SortedSet α) : SortedSet α := s.insertAll t.toList

end Insertion

@[simp] theorem mem_toList {s : SortedSet α} {x : α} : x ∈ s.toList ↔ x ∈ s := Iff.rfl

@[simp] theorem not_mem_empty (x : α) : x ∉ (empty : SortedSet α) := List.not_mem_nil

theorem isEmpty_iff {s : SortedSet α} : s.isEmpty = true ↔ ∀ x, x ∉ s := by
  simp [isEmpty, List.isEmpty_iff, List.eq_nil_iff_forall_not_mem, ← mem_toList]

@[simp] theorem mem_filter {p : α → Bool} {s : SortedSet α} {x : α} :
    x ∈ s.filter p ↔ x ∈ s ∧ p x = true := List.mem_filter

@[simp] theorem mem_inter [DecidableEq α] {s t : SortedSet α} {x : α} :
    x ∈ s.inter t ↔ x ∈ s ∧ x ∈ t := by simp [inter]

theorem isSubset_iff [DecidableEq α] {s t : SortedSet α} :
    s.isSubset t = true ↔ ∀ x, x ∈ s → x ∈ t := by
  simp [isSubset, ← mem_toList]

theorem nodup_toList [Std.ReflOrd α] (s : SortedSet α) : s.toList.Nodup := by
  refine s.ascending.imp fun {x y} hlt heq => ?_
  have hless : compare x y = .lt := hlt
  have hself : compare y y = .eq := Std.ReflCmp.compare_self
  rw [heq, hself] at hless
  cases hless

section Laws

variable [Std.TransOrd α]

/-- Two sets with the same members are equal. -/
theorem ext {s t : SortedSet α} (h : ∀ x, x ∈ s ↔ x ∈ t) : s = t := by
  have := Ascending.eq_of_mem_iff s.ascending t.ascending h
  cases s; cases t; simp_all

variable [Std.LawfulEqOrd α]

@[simp] theorem mem_insert {s : SortedSet α} {x y : α} : y ∈ s.insert x ↔ y = x ∨ y ∈ s := by
  have h := Ascending.mem_insert (x := x) (z := y) s.ascending
  have heq : compare x y = .eq ↔ x = y := Std.LawfulEqCmp.compare_eq_iff_eq
  show y ∈ Ascending.insert compare x s.toList ↔ y = x ∨ y ∈ s.toList
  grind

@[simp] theorem mem_insertAll {s : SortedSet α} {xs : List α} {y : α} :
    y ∈ s.insertAll xs ↔ y ∈ xs ∨ y ∈ s := by
  induction xs generalizing s with
  | nil => simp [insertAll]
  | cons x xs ih =>
    have : s.insertAll (x :: xs) = (s.insert x).insertAll xs := rfl
    rw [this, ih]
    simp
    grind

@[simp] theorem mem_ofList {xs : List α} {y : α} : y ∈ ofList xs ↔ y ∈ xs := by simp [ofList]

@[simp] theorem mem_union {s t : SortedSet α} {y : α} : y ∈ s.union t ↔ y ∈ s ∨ y ∈ t := by
  simp [union, or_comm]

end Laws

end SortedSet
end TaintFlow
