import TaintFlow.Collection.Ascending

/-!
# Sorted maps

A finite map kept as the list of its entries with ascending keys. Look-ups determine the map
(`ext`), so a map does not remember the order in which its entries arrived.
-/
namespace TaintFlow

/-- Entries are compared by key alone. -/
abbrev compareKeys {κ ν : Type} [Ord κ] : κ × ν → κ × ν → Ordering := compareOn Prod.fst

/-- A finite map from `κ` to `ν`, listed with ascending keys. -/
structure SortedMap (κ ν : Type) [Ord κ] where
  entries : List (κ × ν)
  ascending : Ascending compareKeys entries
deriving DecidableEq, Repr

namespace SortedMap

variable {κ ν : Type} [Ord κ]

def empty : SortedMap κ ν := ⟨[], Ascending.nil⟩

instance : EmptyCollection (SortedMap κ ν) := ⟨empty⟩
instance : Inhabited (SortedMap κ ν) := ⟨empty⟩

def isEmpty (m : SortedMap κ ν) : Bool := m.entries.isEmpty

def size (m : SortedMap κ ν) : Nat := m.entries.length

def keys (m : SortedMap κ ν) : List κ := m.entries.map Prod.fst

def values (m : SortedMap κ ν) : List ν := m.entries.map Prod.snd

def get? [DecidableEq κ] (m : SortedMap κ ν) (k : κ) : Option ν :=
  (m.entries.find? fun e => decide (e.1 = k)).map Prod.snd

def filter (p : κ → ν → Bool) (m : SortedMap κ ν) : SortedMap κ ν :=
  ⟨m.entries.filter fun e => p e.1 e.2, m.ascending.filter _⟩

def erase [DecidableEq κ] (m : SortedMap κ ν) (k : κ) : SortedMap κ ν :=
  m.filter fun k' _ => decide (k' ≠ k)

/-- Store `v` under `k`, in place of the value that was there. -/
def insert [Std.TransOrd κ] (m : SortedMap κ ν) (k : κ) (v : ν) : SortedMap κ ν :=
  ⟨Ascending.insert compareKeys (k, v) m.entries, Ascending.insert_ascending (k, v) m.ascending⟩

@[simp] theorem get?_empty [DecidableEq κ] (k : κ) : (empty : SortedMap κ ν).get? k = none := rfl

section Laws

variable [Std.LawfulEqOrd κ]

/-- A key occurs in one entry only. -/
theorem eq_of_mem {m : SortedMap κ ν} {k : κ} {v w : ν}
    (hv : (k, v) ∈ m.entries) (hw : (k, w) ∈ m.entries) : v = w := by
  have h := m.ascending
  unfold Ascending at h
  generalize m.entries = l at h hv hw
  induction l with
  | nil => simp at hv
  | cons e r ih =>
    obtain ⟨he, hr⟩ := List.pairwise_cons.1 h
    have irrefl : ∀ x : κ, compare x x ≠ .lt := fun x => by simp [Std.ReflCmp.compare_self]
    simp only [compareOn] at he
    rcases List.mem_cons.1 hv with rfl | hv' <;> rcases List.mem_cons.1 hw with hw' | hw'
    · grind
    · have below := he (k, w) hw'
      exact (irrefl k below).elim
    · subst hw'
      have below := he (k, v) hv'
      exact (irrefl k below).elim
    · exact ih hr hv' hw'

theorem get?_eq_some_iff [DecidableEq κ] {m : SortedMap κ ν} {k : κ} {v : ν} :
    m.get? k = some v ↔ (k, v) ∈ m.entries := by
  constructor
  · intro h
    obtain ⟨⟨k', v'⟩, hf, rfl⟩ := Option.map_eq_some_iff.1 h
    have hk := List.find?_some hf
    have hm := List.mem_of_find?_eq_some hf
    simp only [decide_eq_true_eq] at hk
    exact hk ▸ hm
  · intro h
    unfold get?
    cases hf : m.entries.find? fun e => decide (e.1 = k) with
    | none => exact absurd (List.find?_eq_none.1 hf _ h) (by simp)
    | some e =>
      have hk := List.find?_some hf
      have hm := List.mem_of_find?_eq_some hf
      simp only [decide_eq_true_eq] at hk
      obtain ⟨k', w⟩ := e
      subst hk
      simp [eq_of_mem hm h]

theorem get?_filter [DecidableEq κ] {p : κ → ν → Bool} {m : SortedMap κ ν} {k : κ} :
    (m.filter p).get? k = (m.get? k).filter (p k) := by
  ext w
  rw [get?_eq_some_iff, Option.filter_eq_some_iff, get?_eq_some_iff]
  exact List.mem_filter

theorem get?_erase [DecidableEq κ] {m : SortedMap κ ν} {k k' : κ} :
    (m.erase k).get? k' = if k' = k then none else m.get? k' := by
  rw [erase, get?_filter]
  split
  · subst k'
    cases m.get? k <;> simp
  · rename_i h
    cases m.get? k' <;> simp [h]

variable [Std.TransOrd κ]

/-- Two maps with the same look-ups are equal. -/
theorem ext [DecidableEq κ] {m n : SortedMap κ ν} (h : ∀ k, m.get? k = n.get? k) : m = n := by
  have := Ascending.eq_of_mem_iff m.ascending n.ascending fun e => by
    rw [show e = (e.1, e.2) from rfl, ← get?_eq_some_iff, ← get?_eq_some_iff, h]
  cases m; cases n; simp_all

theorem mem_entries_insert {m : SortedMap κ ν} {k : κ} {v : ν} {e : κ × ν} :
    e ∈ (m.insert k v).entries ↔ e = (k, v) ∨ (e ∈ m.entries ∧ e.1 ≠ k) := by
  have h := Ascending.mem_insert (x := (k, v)) (z := e) m.ascending
  have heq : compare k e.1 = .eq ↔ k = e.1 := Std.LawfulEqCmp.compare_eq_iff_eq
  simp only [compareOn] at h
  show e ∈ Ascending.insert compareKeys (k, v) m.entries ↔ _
  rw [h]
  grind

theorem get?_insert [DecidableEq κ] {m : SortedMap κ ν} {k k' : κ} {v : ν} :
    (m.insert k v).get? k' = if k' = k then some v else m.get? k' := by
  ext w
  rw [get?_eq_some_iff, mem_entries_insert]
  split
  · subst k'
    simp
    grind
  · rw [get?_eq_some_iff]
    simp_all

end Laws

end SortedMap
end TaintFlow
