import Mathlib.Data.List.Dedup
import Mathlib.Data.List.Induction
import Mathlib.Data.List.Perm.Basic
import TaintFlow.Pool

/-!
# Handles over a run of requests

A pool is asked for one value after the other, and answers each request with a handle. Whatever the
requests are, the handles behave as the keys that were asked for: they are equal when the keys are,
and are ordered as the keys are, although equality looks at places alone and the order at values.
This rests on one fact, that every handle ever given out is still the one that the pool has for its
key.
-/
namespace TaintFlow.Pool
open Keyed (key)

variable {ν κ : Type} [Keyed ν κ] [DecidableEq κ] {p : Pool ν} {vs : List ν}

/-- The pool after some values have been asked for. -/
def internAll (p : Pool ν) (vs : List ν) : Pool ν := vs.foldl (fun p v => (p.intern v).2) p

def ofRequests (vs : List ν) : Pool ν := internAll ∅ vs

theorem internAll_cons (p : Pool ν) (v : ν) (vs : List ν) :
    p.internAll (v :: vs) = (p.intern v).2.internAll vs := rfl

theorem internAll_append (p : Pool ν) (vs ws : List ν) :
    p.internAll (vs ++ ws) = (p.internAll vs).internAll ws := List.foldl_append

theorem get?_empty (k : κ) : (∅ : Pool ν).get? k = none := rfl

/-- A handle stays good. -/
theorem get?_internAll_of_get? {k : κ} {h : Handle ν} (hget : p.get? k = some h) (vs : List ν) :
    (p.internAll vs).get? k = some h := by
  induction vs generalizing p with
  | nil => exact hget
  | cons v vs ih =>
      rw [internAll_cons]
      apply ih
      rw [get?_intern]
      split
      · rename_i hk
        rw [hk] at hget
        rw [intern_of_known hget]
      · exact hget

theorem get?_intern_self (p : Pool ν) (v : ν) : (p.intern v).2.get? (key v) = some (p.intern v).1 :=
  by rw [get?_intern, if_pos rfl]

/-- Under a key stands the first value that was asked for with it. -/
theorem value_get?_internAll (p : Pool ν) (vs : List ν) (k : κ) :
    ((p.internAll vs).get? k).map Handle.value =
      ((p.get? k).map Handle.value).or (vs.find? fun v => decide (key v = k)) := by
  induction vs generalizing p with
  | nil => rw [List.find?_nil, Option.or_none]; rfl
  | cons v vs ih =>
      rw [internAll_cons, ih, get?_intern, List.find?_cons]
      by_cases hk : key v = k
      · subst hk
        rw [if_pos rfl, decide_eq_true rfl]
        cases hget : p.get? (key v) with
        | some h => rw [intern_of_known hget]; rfl
        | none => rw [(intern_of_unknown hget).1]; rfl
      · rw [if_neg (Ne.symm hk), decide_eq_false hk]

theorem value_get?_ofRequests (vs : List ν) (k : κ) :
    ((ofRequests vs).get? k).map Handle.value = vs.find? fun v => decide (key v = k) := by
  rw [ofRequests, value_get?_internAll, get?_empty]
  rfl

theorem isSome_get?_ofRequests {k : κ} :
    ((ofRequests vs).get? k).isSome ↔ ∃ v ∈ vs, key v = k := by
  rw [← Option.isSome_map (f := Handle.value), value_get?_ofRequests, List.find?_isSome]
  simp only [decide_eq_true_eq]

/-- The keys that are stored are those that were asked for. -/
theorem mem_keys_ofRequests {k : κ} : k ∈ (ofRequests vs).values.map key ↔ k ∈ vs.map key := by
  rw [← not_iff_not, ← get?_eq_none_iff, ← Option.not_isSome_iff_eq_none, isSome_get?_ofRequests,
    List.mem_map]

/-- What is stored is what was first asked for with its key. -/
theorem mem_values_ofRequests {v : ν} :
    v ∈ (ofRequests vs).values ↔ vs.find? (fun w => decide (key w = key v)) = some v := by
  rw [← value_get?_ofRequests, Option.map_eq_some_iff]
  constructor
  · intro hv
    obtain ⟨i, hi⟩ := List.mem_iff_getElem?.1 hv
    exact ⟨⟨i, v⟩, get?_eq_some_iff.2 ⟨hi, rfl⟩, rfl⟩
  · intro hfound
    obtain ⟨h, hget, rfl⟩ := hfound
    exact List.mem_of_getElem? (get?_eq_some_iff.1 hget).1

/-- All that is asked for is stored when no two values share a key. -/
theorem mem_values_ofRequests_of_inj (hinj : ∀ v ∈ vs, ∀ w ∈ vs, key w = key v → w = v) {v : ν} :
    v ∈ (ofRequests vs).values ↔ v ∈ vs := by
  rw [mem_values_ofRequests]
  constructor
  · exact List.mem_of_find?_eq_some
  · intro hv
    cases hfind : vs.find? fun w => decide (key w = key v) with
    | none => exact absurd (decide_eq_true rfl) (List.find?_eq_none.1 hfind v hv)
    | some w =>
        have hkey : key w = key v := of_decide_eq_true (List.find?_some hfind :)
        rw [hinj v hv w (List.mem_of_find?_eq_some hfind) hkey]

theorem size_ofRequests (vs : List ν) : (ofRequests vs).size = (vs.map key).dedup.length := by
  have hperm : ((ofRequests vs).values.map key).Perm (vs.map key).dedup := by
    refine (List.perm_ext_iff_of_nodup (ofRequests vs).distinct (List.nodup_dedup _)).2 fun k => ?_
    rw [mem_keys_ofRequests, List.mem_dedup]
  rw [size, ← hperm.length_eq, List.length_map]

/-- What a pool holds may be asked for in place of all requests that it has answered. -/
theorem internAll_values_ofRequests (p : Pool ν) (vs : List ν) :
    p.internAll (ofRequests vs).values = p.internAll vs := by
  induction vs using List.reverseRecOn with
  | nil => rfl
  | append_singleton vs v ih =>
      have hlast : ofRequests (vs ++ [v]) = ((ofRequests vs).intern v).2 := internAll_append ∅ vs [v]
      rw [hlast, internAll_append]
      cases hget : (ofRequests vs).get? (key v) with
      | none => rw [(intern_of_unknown hget).2, internAll_append, ih]
      | some h =>
          -- The key has been asked for before, so `p` knows it as well by now.
          obtain ⟨w, hw, hkey⟩ := isSome_get?_ofRequests.1 (Option.isSome_of_eq_some hget)
          obtain ⟨before, after, rfl⟩ := List.append_of_mem hw
          have hknown : ∃ g, (p.internAll (before ++ w :: after)).get? (key v) = some g := by
            rw [internAll_append, internAll_cons, ← hkey]
            exact ⟨_, get?_internAll_of_get? (get?_intern_self _ w) after⟩
          obtain ⟨g, hg⟩ := hknown
          rw [intern_of_known hget, ih]
          exact (congrArg Prod.snd (intern_of_known hg)).symm

/-- The handle that answers a request. -/
def given (vs : List ν) (i : Fin vs.length) : Handle ν := ((ofRequests (vs.take i)).intern vs[i]).1

theorem exists_given {before after : List ν} {v : ν} (h : vs = before ++ v :: after) :
    ∃ i : Fin vs.length, vs[i] = v ∧ given vs i = ((ofRequests before).intern v).1 := by
  subst h
  have hlt : before.length < (before ++ v :: after).length := by
    rw [List.length_append, List.length_cons]
    omega
  have hv : (before ++ v :: after)[before.length] = v := by simp
  refine ⟨⟨before.length, hlt⟩, hv, ?_⟩
  rw [given, Fin.getElem_fin, hv, List.take_left]

/-- Every handle that was given out is still found under its key. -/
theorem get?_given (vs : List ν) (i : Fin vs.length) :
    (ofRequests vs).get? (key vs[i]) = some (given vs i) := by
  have hsplit : vs = vs.take i ++ vs[i] :: vs.drop (i + 1) := by
    rw [Fin.getElem_fin, ← List.drop_eq_getElem_cons, List.take_append_drop]
  have hrun : ofRequests vs =
      (((ofRequests (vs.take i)).intern vs[i]).2).internAll (vs.drop (i + 1)) := by
    conv_lhs => rw [hsplit, ofRequests, internAll_append, internAll_cons]
    rfl
  rw [hrun]
  exact get?_internAll_of_get? (get?_intern_self _ _) _

/-- Later requests change none of the handles given before. -/
theorem given_take {n : Nat} (i : Fin (vs.take n).length) :
    given (vs.take n) i = given vs (i.castLE (List.length_take_le' n vs)) := by
  have hle : (i : Nat) ≤ n := Nat.le_of_lt (Nat.lt_of_lt_of_le i.isLt (List.length_take_le n vs))
  simp only [given, Fin.getElem_fin, List.getElem_take, List.take_take, Nat.min_eq_left hle,
    Fin.val_castLE]

/-- The handles given for the requests `vs` behave as the keys that were asked for. -/
structure LikeKeys [Ord κ] (vs : List ν) : Prop where
  beq_iff (i j : Fin vs.length) : given vs i == given vs j ↔ key vs[i] = key vs[j]
  hash_eq (i j : Fin vs.length) : given vs i == given vs j → hash (given vs i) = hash (given vs j)
  compare_eq_iff (i j : Fin vs.length) :
    compare (given vs i) (given vs j) = .eq ↔ given vs i == given vs j
  compare_swap (i j : Fin vs.length) :
    compare (given vs i) (given vs j) = (compare (given vs j) (given vs i)).swap
  compare_trans (i j k : Fin vs.length) : (compare (given vs i) (given vs j)).isLE →
    (compare (given vs j) (given vs k)).isLE → (compare (given vs i) (given vs k)).isLE
  /-- The order is that of the values, which stand for their keys. -/
  compare_value (i j : Fin vs.length) : compare (given vs i) (given vs j) =
    compare (key (given vs i).value) (key (given vs j).value)
  /-- A handle refers to what was first asked for with its key. -/
  first (i : Fin vs.length) :
    some (given vs i).value = vs.find? fun v => decide (key v = key vs[i])
  /-- After some of the requests, exactly the handles are found that were given for them. -/
  get?_iff (n : Nat) (k : κ) (h : Handle ν) : (ofRequests (vs.take n)).get? k = some h ↔
    ∃ i : Fin vs.length, i < n ∧ key vs[i] = k ∧ given vs i = h
  size_eq (n : Nat) : (ofRequests (vs.take n)).size = ((vs.take n).map key).dedup.length

section Given

variable (i j : Fin vs.length)

theorem key_value_given : key (given vs i).value = key vs[i] := (get?_eq_some_iff.1 (get?_given vs i)).2

theorem given_eq_of_key_eq (h : key vs[i] = key vs[j]) : given vs i = given vs j := by
  have hi := get?_given vs i
  rw [h, get?_given vs j] at hi
  exact (Option.some.inj hi).symm

theorem given_beq_iff : given vs i == given vs j ↔ key vs[i] = key vs[j] := by
  rw [Handle.beq_iff]
  constructor
  · intro haddress
    obtain ⟨hi, hkeyi⟩ := get?_eq_some_iff.1 (get?_given vs i)
    obtain ⟨hj, hkeyj⟩ := get?_eq_some_iff.1 (get?_given vs j)
    rw [haddress, hj] at hi
    rw [← hkeyi, ← hkeyj, Option.some.inj hi]
  · intro hkey
    rw [given_eq_of_key_eq i j hkey]

theorem compare_given [Ord κ] [Std.ReflOrd κ] :
    compare (given vs i) (given vs j) = compare (key vs[i]) (key vs[j]) := by
  change (if given vs i == given vs j then .eq
    else compare (key (given vs i).value) (key (given vs j).value)) = _
  rw [key_value_given, key_value_given]
  split
  · rename_i hsame
    rw [(given_beq_iff i j).1 hsame, Std.ReflOrd.compare_self]
  · rfl

end Given

theorem get?_ofRequests_take_iff {n : Nat} {k : κ} {h : Handle ν} :
    (ofRequests (vs.take n)).get? k = some h ↔
      ∃ i : Fin vs.length, i < n ∧ key vs[i] = k ∧ given vs i = h := by
  have hgiven (i : Fin (vs.take n).length) :
      (ofRequests (vs.take n)).get? (key (vs.take n)[i]) = some (given (vs.take n) i) :=
    get?_given (vs.take n) i
  constructor
  · intro hget
    obtain ⟨v, hv, hkey⟩ := isSome_get?_ofRequests.1 (Option.isSome_of_eq_some hget)
    obtain ⟨i, hi, rfl⟩ := List.mem_iff_getElem.1 hv
    have hsame := hgiven ⟨i, hi⟩
    rw [Fin.getElem_fin, hkey, hget, given_take] at hsame
    have hlt : i < n := Nat.lt_of_lt_of_le hi (List.length_take_le n vs)
    refine ⟨Fin.castLE (List.length_take_le' n vs) ⟨i, hi⟩, hlt, ?_, (Option.some.inj hsame).symm⟩
    rw [← hkey, List.getElem_take]
    rfl
  · intro hfound
    obtain ⟨i, hlt, rfl, rfl⟩ := hfound
    have hi : (i : Nat) < (vs.take n).length := by
      rw [List.length_take]
      exact Nat.lt_min.2 ⟨hlt, i.isLt⟩
    have hsame := hgiven ⟨i, hi⟩
    rw [given_take, Fin.getElem_fin, List.getElem_take] at hsame
    exact hsame

/-- Whatever is asked for, handles behave as keys. -/
theorem likeKeys [Ord κ] [Std.TransOrd κ] [Std.LawfulEqOrd κ] (vs : List ν) : LikeKeys vs where
  beq_iff := given_beq_iff
  hash_eq i j h := by
    change hash (given vs i).address = hash (given vs j).address
    rw [Handle.beq_iff.1 h]
  compare_eq_iff i j := by
    rw [compare_given, given_beq_iff]
    exact Std.LawfulEqCmp.compare_eq_iff_eq
  compare_swap i j := by
    rw [compare_given, compare_given]
    exact Std.OrientedOrd.eq_swap
  compare_trans i j k := by
    rw [compare_given, compare_given, compare_given]
    exact Std.TransOrd.isLE_trans
  compare_value i j := by rw [compare_given, key_value_given, key_value_given]
  first i := by
    rw [← value_get?_ofRequests, get?_given]
    rfl
  get?_iff _ _ _ := get?_ofRequests_take_iff
  size_eq n := size_ofRequests (vs.take n)

end TaintFlow.Pool
