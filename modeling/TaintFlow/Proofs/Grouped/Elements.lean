import TaintFlow.Proofs.Grouped.Contents

/-!
# What is said of every element

A property of elements that the operations on two elements keep is kept by the operations on grouped
sets. Nothing is asked of the sets: elements may stand under keys that are not their own, and no law
need hold of the operations on elements.
-/
namespace TaintFlow

variable {κ ε : Type} {p : ε → Prop}

/-- Operations on two elements with the property have results with the property. -/
structure Grouping.Closed [Grouping ε κ] (p : ε → Prop) : Prop where
  join : ∀ a b, p a → p b → p (AbstractDomain.join a b)
  widen : ∀ a b, p a → p b → p (AbstractDomain.widen a b)
  meet : ∀ a b, p a → p b → p (AbstractDomain.meet a b)
  narrow : ∀ a b, p a → p b → p (AbstractDomain.narrow a b)
  difference : ∀ a b, p a → p b → p (Grouping.difference a b)

namespace Grouped

variable [Ord κ] {g h : Grouped κ ε}

/-- All elements have the property. -/
def All (p : ε → Prop) (g : Grouped κ ε) : Prop := ∀ e ∈ g.elements, p e

theorem all_empty [DecidableEq κ] : (∅ : Grouped κ ε).All p := fun _ he => nomatch he

variable [DecidableEq κ] [Std.LawfulEqOrd κ]

theorem all_iff : g.All p ↔ ∀ k e, g.get? k = some e → p e := by
  simp only [All, mem_elements]
  exact ⟨fun hg k e hk => hg e ⟨k, hk⟩, fun hg e hfound => hfound.elim fun k hk => hg k e hk⟩

theorem All.of_get? (hg : g.All p) {k : κ} {e : ε} (hk : g.get? k = some e) : p e :=
  all_iff.1 hg k e hk

theorem All.filter (hg : g.All p) (keep : ε → Bool) : (g.filter keep).All p := by
  refine all_iff.2 fun k e hk => ?_
  rw [get?_filter] at hk
  exact hg.of_get? (Option.filter_eq_some_iff.1 hk).1

variable [Std.TransOrd κ] [Grouping ε κ] (hp : Grouping.Closed p)
include hp

theorem All.add (hg : g.All p) {e : ε} (he : p e) : (g.add e).All p := by
  refine all_iff.2 fun k a hk => ?_
  rw [get?_add'] at hk
  split at hk
  · cases hstanding : g.get? k with
    | none =>
        rw [hstanding] at hk
        cases hk
        exact he
    | some b =>
        rw [hstanding] at hk
        cases hk
        exact hp.join b e (hg.of_get? hstanding) he
  · exact hg.of_get? hk

theorem All.addAll {es : List ε} (hg : g.All p) (hes : ∀ e ∈ es, p e) : (g.addAll es).All p := by
  induction es generalizing g with
  | nil => exact hg
  | cons e es ih =>
      have hadd := hg.add hp (hes e List.mem_cons_self)
      exact ih hadd fun e' he' => hes e' (List.mem_cons_of_mem e he')

theorem all_ofList {es : List ε} (hes : ∀ e ∈ es, p e) : (ofList es : Grouped κ ε).All p :=
  all_empty.addAll hp hes

theorem all_rebuild {f : ε → Option ε} (hf : ∀ e ∈ g.elements, ∀ e', f e = some e' → p e') :
    (g.rebuild f).All p := by
  refine all_ofList hp fun e' he' => ?_
  obtain ⟨e, he, hfe⟩ := List.mem_filterMap.1 he'
  exact hf e he e' hfe

theorem all_map {f : ε → ε} (hf : ∀ e ∈ g.elements, p (f e)) : (g.map f).All p := by
  refine all_ofList hp fun e' he' => ?_
  obtain ⟨e, he, rfl⟩ := List.mem_map.1 he'
  exact hf e he

theorem All.join (hg : g.All p) (hh : h.All p) : (g.join h).All p := hg.addAll hp hh

theorem All.widenAt (hg : g.All p) (k : κ) {e : ε} (he : p e) : (g.widenAt k e).All p := by
  unfold Grouped.widenAt
  -- Whatever is put under the key has the property.
  have hput {a : ε} (ha : p a) : All p ⟨g.groups.insert k a⟩ := by
    refine all_iff.2 fun k' b hb => ?_
    rw [get?, SortedMap.get?_insert] at hb
    split at hb
    · cases hb
      exact ha
    · exact hg.of_get? hb
  split
  · rename_i standing hstanding
    exact hput (hp.widen standing e (hg.of_get? hstanding) he)
  · split
    · exact hg
    · exact hput he

theorem All.widen (hg : g.All p) (hh : h.All p) : (g.widen h).All p := by
  have hentries : ∀ entry ∈ h.groups.entries, p entry.2 := fun entry hmem =>
    hh entry.2 (List.mem_map_of_mem hmem)
  unfold Grouped.widen
  generalize h.groups.entries = entries at hentries
  induction entries generalizing g with
  | nil => exact hg
  | cons entry entries ih =>
      have hstep := hg.widenAt hp entry.1 (hentries entry List.mem_cons_self)
      exact ih hstep fun e he => hentries e (List.mem_cons_of_mem entry he)

theorem All.combineShared {combine : ε → ε → ε} (hcombine : ∀ a b, p a → p b → p (combine a b))
    (hg : g.All p) (hh : h.All p) : (g.combineShared combine h).All p := by
  refine all_rebuild hp fun e he e' he' => ?_
  obtain ⟨counterpart, hcounterpart, rfl⟩ := Option.map_eq_some_iff.1 he'
  exact hcombine e counterpart (hg e he) (hh.of_get? hcounterpart)

theorem All.meet (hg : g.All p) (hh : h.All p) : (g.meet h).All p :=
  hg.combineShared hp hp.meet hh

theorem All.narrow (hg : g.All p) (hh : h.All p) : (g.narrow h).All p :=
  hg.combineShared hp hp.narrow hh

theorem All.difference (hg : g.All p) (hh : h.All p) : (g.difference h).All p := by
  unfold Grouped.difference
  split
  · exact hg
  · refine all_rebuild hp fun e he e' he' => ?_
    split at he'
    · cases he'
      exact hg e he
    · rename_i counterpart hcounterpart
      split at he'
      · cases he'
      · cases he'
        exact hp.difference e counterpart (hg e he) (hh.of_get? hcounterpart)

end Grouped
end TaintFlow
