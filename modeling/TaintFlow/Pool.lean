/-!
# Pools and handles

An identity is stored once, however often it is asked for, and is given out as a handle. Two handles
are equal when they refer to the same place of the pool, and what is stored there is not looked at;
only the order of handles looks at it. A place is never given up, so a handle stays good.
-/
namespace TaintFlow

/-- Values that are asked for by a key. -/
class Keyed (ν : Type) (κ : outParam Type) where
  key : ν → κ

/-- A value that a pool has stored, and its place there. -/
structure Handle (ν : Type) where
  address : Nat
  value : ν
deriving Repr

namespace Handle

variable {ν κ : Type}

instance : BEq (Handle ν) := ⟨fun g h => g.address == h.address⟩

instance : Hashable (Handle ν) := ⟨fun h => hash h.address⟩

theorem beq_iff {g h : Handle ν} : g == h ↔ g.address = h.address :=
  beq_iff_eq (a := g.address) (b := h.address)

/-- Handles of one place are equal without a look at it. All others are ordered by their keys. -/
def order [Keyed ν κ] [Ord κ] (g h : Handle ν) : Ordering :=
  if g == h then .eq else compare (Keyed.key g.value) (Keyed.key h.value)

instance [Keyed ν κ] [Ord κ] : Ord (Handle ν) := ⟨order⟩

end Handle

/-- The values that have been stored, each at the place that is its address. -/
structure Pool (ν : Type) {κ : Type} [Keyed ν κ] where
  values : List ν := []
  distinct : (values.map Keyed.key).Nodup := by exact List.nodup_nil
deriving DecidableEq, Repr

namespace Pool
open Keyed (key)

variable {ν κ : Type} [Keyed ν κ]

def empty : Pool ν := {}

instance : EmptyCollection (Pool ν) := ⟨empty⟩
instance : Inhabited (Pool ν) := ⟨empty⟩

def size (p : Pool ν) : Nat := p.values.length

/-- A place is determined by the key of what is stored there. -/
theorem address_inj {p : Pool ν} {i j : Nat} {v w : ν} (hv : p.values[i]? = some v)
    (hw : p.values[j]? = some w) (hkey : key v = key w) : i = j := by
  have hlt : i < (p.values.map key).length := by
    rw [List.length_map]
    exact (List.getElem?_eq_some_iff.1 hv).1
  refine (List.getElem?_inj hlt p.distinct).1 ?_
  simp only [List.getElem?_map, hv, hw, Option.map_some, hkey]

variable [DecidableEq κ]

/-- The handle of the value with a key, if it has been stored. -/
def get? (p : Pool ν) (k : κ) : Option (Handle ν) :=
  (p.values.zipIdx.find? fun e => decide (key e.1 = k)).map fun e => ⟨e.2, e.1⟩

/-- A handle is found under a key exactly when the value that it refers to has that key. -/
theorem get?_eq_some_iff {p : Pool ν} {k : κ} {h : Handle ν} :
    p.get? k = some h ↔ p.values[h.address]? = some h.value ∧ key h.value = k := by
  constructor
  · intro hget
    obtain ⟨e, hfind, rfl⟩ := Option.map_eq_some_iff.1 hget
    have hkey := List.find?_some hfind
    have hmem := List.mem_of_find?_eq_some hfind
    exact ⟨List.mem_zipIdx_iff_getElem?.1 hmem, of_decide_eq_true hkey⟩
  · intro hstored
    obtain ⟨hplace, hkey⟩ := hstored
    unfold get?
    cases hfind : p.values.zipIdx.find? fun e => decide (key e.1 = k) with
    | none =>
        have hnone := List.find?_eq_none.1 hfind (h.value, h.address)
          (List.mem_zipIdx_iff_getElem?.2 hplace)
        exact absurd (decide_eq_true hkey) hnone
    | some e =>
        have hsame := List.find?_some hfind
        have hmem := List.mem_zipIdx_iff_getElem?.1 (List.mem_of_find?_eq_some hfind)
        have haddress : e.2 = h.address :=
          address_inj hmem hplace ((of_decide_eq_true hsame).trans hkey.symm)
        rw [haddress] at hmem
        have hvalue : e.1 = h.value := Option.some.inj (hmem.symm.trans hplace)
        rw [Option.map_some, haddress, hvalue]

theorem get?_eq_none_iff {p : Pool ν} {k : κ} : p.get? k = none ↔ k ∉ p.values.map key := by
  rw [get?, Option.map_eq_none_iff, List.find?_eq_none, List.mem_map]
  constructor
  · intro hnone hfound
    obtain ⟨v, hv, hkey⟩ := hfound
    obtain ⟨i, hi⟩ := List.mem_iff_getElem?.1 hv
    exact hnone (v, i) (List.mem_zipIdx_iff_getElem?.2 hi) (decide_eq_true hkey)
  · intro hnone e he hkey
    exact hnone ⟨e.1, List.fst_mem_of_mem_zipIdx he, of_decide_eq_true hkey⟩

theorem distinct_append {p : Pool ν} {v : ν} (hget : p.get? (key v) = none) :
    ((p.values ++ [v]).map key).Nodup := by
  have hnew := get?_eq_none_iff.1 hget
  rw [List.map_append, List.map_singleton, List.nodup_append]
  refine ⟨p.distinct, List.nodup_cons.2 ⟨List.not_mem_nil, List.nodup_nil⟩, ?_⟩
  intro k hk k' hk' heq
  rw [heq, List.mem_singleton.1 hk'] at hk
  exact hnew hk

/-- Store a value at a place of its own, unless one with its key is stored: then that one is meant. -/
def intern (p : Pool ν) (v : ν) : Handle ν × Pool ν :=
  match hget : p.get? (key v) with
  | some h => (h, p)
  | none => (⟨p.size, v⟩, ⟨p.values ++ [v], distinct_append hget⟩)

theorem intern_of_known {p : Pool ν} {v : ν} {h : Handle ν} (hget : p.get? (key v) = some h) :
    p.intern v = (h, p) := by
  unfold intern
  split
  · rename_i h' hget'
    rw [Option.some.inj (hget'.symm.trans hget)]
  · rename_i hnone
    cases hnone.symm.trans hget

theorem intern_of_unknown {p : Pool ν} {v : ν} (hget : p.get? (key v) = none) :
    (p.intern v).1 = ⟨p.size, v⟩ ∧ (p.intern v).2.values = p.values ++ [v] := by
  unfold intern
  split
  · rename_i h hsome
    cases hget.symm.trans hsome
  · exact ⟨rfl, rfl⟩

/-- What has been asked for is found from then on, and all else is found where it was. -/
theorem get?_intern (p : Pool ν) (v : ν) (k : κ) :
    (p.intern v).2.get? k = if k = key v then some (p.intern v).1 else p.get? k := by
  cases hget : p.get? (key v) with
  | some h =>
      rw [intern_of_known hget]
      split
      · rename_i hk
        rw [hk, hget]
      · rfl
  | none =>
      obtain ⟨hhandle, hvalues⟩ := intern_of_unknown hget
      split
      · rename_i hk
        rw [get?_eq_some_iff, hhandle, hvalues, hk]
        exact ⟨List.getElem?_concat_length, rfl⟩
      · rename_i hk
        apply Option.ext
        intro h
        rw [get?_eq_some_iff, get?_eq_some_iff, hvalues, List.getElem?_append]
        split
        · exact Iff.rfl
        · rename_i hlt
          refine iff_of_false (fun hlast => ?_) fun hold => ?_
          · obtain ⟨hplace, hkey⟩ := hlast
            rw [List.mem_singleton.1 (List.mem_of_getElem? hplace)] at hkey
            exact hk hkey.symm
          · exact hlt (List.getElem?_eq_some_iff.1 hold.1).1

end Pool
end TaintFlow
