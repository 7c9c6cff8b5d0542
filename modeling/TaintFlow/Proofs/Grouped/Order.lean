import TaintFlow.Proofs.Grouped.Contents
import TaintFlow.Proofs.Order.Laws

/-!
# The order of grouped sets

A set is *filed* when each element stands under its own key, is not bottom and satisfies a
predicate `p`. If the elements of each key obey the laws of a join-semilattice, then every operation
gives a filed set, a collection is the least set that covers all that was put into it
(`ofList_leq_iff`), and the filed sets obey the laws themselves (`joinLaws`). Both levels of a
taint, frames under keys and sets of frames under kinds, are instances of this.
-/
namespace TaintFlow.Grouped
open Grouping

variable {κ ε : Type} [Grouping ε κ] {p : ε → Prop} {e : ε} {es : List ε}

/-- The elements of each key obey the laws of a join-semilattice. -/
def KeyLaws (p : ε → Prop) : Prop := ∀ k : κ, JoinLaws fun e : ε => p e ∧ groupKey e = k

/-- What stands under a key in one set is below what stands there in another. -/
def Below (standing above : Option ε) : Prop :=
  ∀ e, standing = some e → ∃ c, above = some c ∧ AbstractDomain.leq e c

theorem below_some {c : ε} : Below (some e) (some c) ↔ AbstractDomain.leq e c := by
  simp [Below]

theorem not_below_none : ¬ Below (some e) none := by
  simp [Below]

/-- Something gathered under a key is below a bound when all that was gathered is. -/
theorem KeyLaws.gather_below_iff (L : KeyLaws p) {k : κ} {standing above : Option ε}
    (hs : ∀ a, standing = some a → p a ∧ groupKey a = k) (he : p e ∧ groupKey e = k)
    (hc : ∀ c, above = some c → p c ∧ groupKey c = k) :
    Below (gather standing e) above ↔ Below standing above ∧ Below (some e) above := by
  cases standing with
  | none => simp [Below, gather]
  | some a =>
      cases above with
      | none => simp [Below, gather]
      | some c => simpa [Below, gather] using (L k).join_leq_iff (hs a rfl) he (hc c rfl)

variable [Ord κ] [DecidableEq κ] {g h : Grouped κ ε}

/-- Every element is stored under its own key, is not bottom and satisfies `p`. -/
def Filed (p : ε → Prop) (g : Grouped κ ε) : Prop :=
  ∀ k e, g.get? k = some e → groupKey e = k ∧ AbstractDomain.isBottom e = false ∧ p e

/-- Whether the element that stands under the key of `e` is above `e`. -/
def Covers (h : Grouped κ ε) (e : ε) : Prop := Below (some e) (h.get? (groupKey e))

theorem Filed.empty : (∅ : Grouped κ ε).Filed p := fun k e h => by simp at h

section Reading

variable [Std.LawfulEqOrd κ]

/-- Comparing the numbers of groups first rejects nothing, since keys do not repeat. -/
theorem leq_iff : g.leq h ↔ ∀ k, Below (g.get? k) (h.get? k) := by
  simp only [leq, Bool.and_eq_true, decide_eq_true_eq, List.all_eq_true, Option.any_eq_true]
  constructor
  · intro hboth k e hk
    rcases hboth with ⟨-, hle⟩
    exact hle (k, e) (SortedMap.get?_eq_some_iff.1 hk)
  · intro hle
    constructor
    · apply size_le_size
      intro k hk
      rcases Option.isSome_iff_exists.1 hk with ⟨e, he⟩
      obtain ⟨c, hc, -⟩ := hle k e he
      exact Option.isSome_iff_exists.2 ⟨c, hc⟩
    · intro e he
      exact hle e.1 e.2 (SortedMap.get?_eq_some_iff.2 he)

theorem equals_iff_get? : g.equals h ↔ g.size = h.size ∧
    ∀ k e, g.get? k = some e → ∃ c, h.get? k = some c ∧ AbstractDomain.equals e c := by
  simp only [equals, Bool.and_eq_true, beq_iff_eq, List.all_eq_true, Option.any_eq_true]
  refine and_congr_right fun _ => ⟨fun hall k e hk => ?_, fun hall e he => ?_⟩
  · exact hall (k, e) (SortedMap.get?_eq_some_iff.1 hk)
  · exact hall e.1 e.2 (SortedMap.get?_eq_some_iff.2 he)

theorem filed_iff : g.Filed p ↔ g.Valid ∧ ∀ e ∈ g.elements, p e := by
  constructor
  · intro hg
    refine ⟨fun k e hk => ⟨(hg k e hk).1, (hg k e hk).2.1⟩, fun e he => ?_⟩
    obtain ⟨k, hk⟩ := mem_elements.1 he
    exact (hg k e hk).2.2
  · intro hboth k e hk
    rcases hboth with ⟨hv, hp⟩
    exact ⟨(hv k e hk).1, (hv k e hk).2, hp e (mem_elements.2 ⟨k, hk⟩)⟩

namespace Filed

theorem get?_groupKey (hg : g.Filed p) (he : e ∈ g.elements) : g.get? (groupKey e) = some e := by
  obtain ⟨k, hk⟩ := mem_elements.1 he
  rw [(hg k e hk).1, hk]

theorem mem (hg : g.Filed p) (he : e ∈ g.elements) : p e := (filed_iff.1 hg).2 e he

theorem isBottom_eq_false (hg : g.Filed p) (he : e ∈ g.elements) :
    AbstractDomain.isBottom e = false := by
  obtain ⟨k, hk⟩ := mem_elements.1 he
  exact (hg k e hk).2.1

theorem filter (hg : g.Filed p) (keep : ε → Bool) : (g.filter keep).Filed p := by
  intro k e hk
  rw [get?_filter, Option.filter_eq_some_iff] at hk
  exact hg k e hk.1

theorem leq_iff_covers (hg : g.Filed p) : g.leq h ↔ ∀ e ∈ g.elements, h.Covers e := by
  rw [Grouped.leq_iff]
  constructor
  · intro hle e he
    have hbelow := hle (groupKey e)
    rwa [hg.get?_groupKey he] at hbelow
  · intro hle k e hk
    have hcov := hle e (mem_elements.2 ⟨k, hk⟩) e rfl
    rwa [(hg k e hk).1] at hcov

end Filed

/-- The elements that are combined are those that stand under one key. -/
theorem mem_combined {combine : ε → ε → ε} (hg : g.Filed p) {e' : ε} :
    e' ∈ g.elements.filterMap (fun e => (h.get? (groupKey e)).map (combine e)) ↔
      ∃ k e c, g.get? k = some e ∧ h.get? k = some c ∧ combine e c = e' := by
  simp only [List.mem_filterMap, Option.map_eq_some_iff]
  constructor
  · intro hfound
    rcases hfound with ⟨e, he, c, hc, rfl⟩
    exact ⟨_, e, c, hg.get?_groupKey he, hc, rfl⟩
  · intro hfound
    rcases hfound with ⟨k, e, c, he, hc, rfl⟩
    exact ⟨e, mem_elements.2 ⟨k, he⟩, c, (hg k e he).1 ▸ hc, rfl⟩

theorem isSome_get?_combineShared [Std.TransOrd κ] {combine : ε → ε → ε} (hg : g.Filed p)
    {k : κ} : ((g.combineShared combine h).get? k).isSome ↔ ∃ k' e c, g.get? k' = some e ∧
      h.get? k' = some c ∧ AbstractDomain.isBottom (combine e c) = false ∧
      groupKey (combine e c) = k := by
  rw [combineShared, rebuild, isSome_get?_ofList]
  constructor
  · intro hfound
    rcases hfound with ⟨e', he', hbot, hkey⟩
    obtain ⟨k', e, c, he, hc, rfl⟩ := (mem_combined hg).1 he'
    exact ⟨k', e, c, he, hc, hbot, hkey⟩
  · intro hfound
    rcases hfound with ⟨k', e, c, he, hc, hbot, hkey⟩
    exact ⟨_, (mem_combined hg).2 ⟨k', e, c, he, hc, rfl⟩, hbot, hkey⟩

end Reading

namespace KeyLaws

variable (L : KeyLaws p) [Std.LawfulEqOrd κ]
include L

theorem leq_refl (hg : g.Filed p) : g.leq g :=
  leq_iff.2 fun k e hk => ⟨e, hk, (L k).leq_refl ⟨(hg k e hk).2.2, (hg k e hk).1⟩⟩

theorem leq_trans {i : Grouped κ ε} (hg : g.Filed p) (hh : h.Filed p) (hi : i.Filed p)
    (hgh : g.leq h) (hhi : h.leq i) : g.leq i := by
  apply leq_iff.2
  intro k e hk
  rcases leq_iff.1 hgh k e hk with ⟨c, hc, hec⟩
  rcases leq_iff.1 hhi k c hc with ⟨d, hd, hcd⟩
  exact ⟨d, hd, (L k).leq_trans ⟨(hg k e hk).2.2, (hg k e hk).1⟩
    ⟨(hh k c hc).2.2, (hh k c hc).1⟩ ⟨(hi k d hd).2.2, (hi k d hd).1⟩ hec hcd⟩

variable [Std.TransOrd κ]

theorem leq_antisymm (hg : g.Filed p) (hh : h.Filed p) (hgh : g.leq h) (hhg : h.leq g) :
    g = h := by
  have hle {g h : Grouped κ ε} (hg : g.Filed p) (hh : h.Filed p) (hgh : g.leq h) (hhg : h.leq g)
      (k : κ) (e : ε) (hk : g.get? k = some e) : h.get? k = some e := by
    rcases leq_iff.1 hgh k e hk with ⟨c, hc, hec⟩
    rcases leq_iff.1 hhg k c hc with ⟨e', he', hce⟩
    obtain rfl : e = e' := Option.some.inj (hk.symm.trans he')
    have heq := (L k).leq_antisymm ⟨(hg k e hk).2.2, (hg k e hk).1⟩
      ⟨(hh k c hc).2.2, (hh k c hc).1⟩ hec hce
    rw [hc, heq]
  refine get?_ext fun k => Option.ext fun e => ?_
  exact ⟨hle hg hh hgh hhg k e, hle hh hg hhg hgh k e⟩

/-- Equality compares the numbers of groups first. Since keys do not repeat, a set of the same size
whose keys are all found has no other keys. -/
theorem equals_iff (hg : g.Filed p) (hh : h.Filed p) : g.equals h ↔ g = h := by
  have helements {k : κ} {e c : ε} (hk : g.get? k = some e) (hc : h.get? k = some c) :
      AbstractDomain.equals e c ↔ e = c :=
    (L k).equals_iff ⟨(hg k e hk).2.2, (hg k e hk).1⟩ ⟨(hh k c hc).2.2, (hh k c hc).1⟩
  rw [equals_iff_get?]
  constructor
  · intro hboth
    rcases hboth with ⟨hsize, hall⟩
    have hfind (k : κ) (e : ε) (hk : g.get? k = some e) : h.get? k = some e := by
      obtain ⟨c, hc, hec⟩ := hall k e hk
      rw [hc, (helements hk hc).1 hec]
    have hsub (k : κ) (hk : (g.get? k).isSome) : (h.get? k).isSome := by
      rcases Option.isSome_iff_exists.1 hk with ⟨e, he⟩
      exact Option.isSome_iff_exists.2 ⟨e, hfind k e he⟩
    refine get?_ext fun k => Option.ext fun c => ⟨hfind k c, fun hc => ?_⟩
    have hsome := isSome_get?_of_size_le hsub (Nat.le_of_eq hsize.symm)
      (Option.isSome_iff_exists.2 ⟨c, hc⟩)
    rcases Option.isSome_iff_exists.1 hsome with ⟨e, he⟩
    rw [he, ← hfind k e he, hc]
  · intro heq
    subst heq
    exact ⟨rfl, fun k e hk => ⟨e, hk, (helements hk hk).2 rfl⟩⟩

theorem filed_add (hg : g.Filed p) (he : p e) : (g.add e).Filed p := by
  intro k f hf
  rw [get?_add'] at hf
  split at hf
  · rename_i hl
    rcases landsAt_iff.1 hl with ⟨hbot, rfl⟩
    cases hk : g.get? (groupKey e) with
    | none =>
        rw [hk, gather, Option.elim_none, Option.some.injEq] at hf
        exact hf ▸ ⟨rfl, hbot, he⟩
    | some a =>
        obtain ⟨hkey, habot, ha⟩ := hg _ a hk
        rw [hk, gather, Option.elim_some, Option.some.injEq] at hf
        have hj := (L (groupKey e)).join_mem ⟨ha, hkey⟩ ⟨he, rfl⟩
        have hb := (L (groupKey e)).isBottom_join ⟨ha, hkey⟩ ⟨he, rfl⟩
        rw [habot, Bool.false_and] at hb
        exact hf ▸ ⟨hj.2, hb, hj.1⟩
  · exact hg k f hf

theorem filed_addAll (hg : g.Filed p) (hes : ∀ e ∈ es, p e) : (g.addAll es).Filed p := by
  induction es generalizing g with
  | nil => exact hg
  | cons e es ih =>
      exact ih (L.filed_add hg (hes e (by simp))) fun f hf => hes f (by simp [hf])

theorem filed_ofList (hes : ∀ e ∈ es, p e) : (ofList es : Grouped κ ε).Filed p :=
  L.filed_addAll Filed.empty hes

theorem filed_rebuild {f : ε → Option ε} (hf : ∀ e ∈ g.elements, ∀ e', f e = some e' → p e') :
    (g.rebuild f).Filed p := by
  apply L.filed_ofList
  intro e' he'
  rcases List.mem_filterMap.1 he' with ⟨e, he, hfe⟩
  exact hf e he e' hfe

theorem filed_map {f : ε → ε} (hf : ∀ e ∈ g.elements, p (f e)) : (g.map f).Filed p := by
  apply L.filed_ofList
  intro e' he'
  rcases List.mem_map.1 he' with ⟨e, he, rfl⟩
  exact hf e he

theorem filed_difference (hg : g.Filed p)
    (hleft : ∀ e c, p e → p (Grouping.difference e c)) : (g.difference h).Filed p := by
  unfold difference
  split
  · exact hg
  · refine L.filed_rebuild fun e he e' he' => ?_
    split at he'
    · cases he'
      exact hg.mem he
    · split at he'
      · cases he'
      · cases he'
        exact hleft e _ (hg.mem he)

/-- The set with one more element is the least one that is above the set and covers the element. -/
theorem add_leq_iff (hg : g.Filed p) (he : p e) (hh : h.Filed p) :
    (g.add e).leq h ↔ g.leq h ∧ (AbstractDomain.isBottom e = false → h.Covers e) := by
  have hgather := L.gather_below_iff (e := e) (k := groupKey e)
    (fun a ha => ⟨(hg _ a ha).2.2, (hg _ a ha).1⟩) ⟨he, rfl⟩
    fun c hc => ⟨(hh _ c hc).2.2, (hh _ c hc).1⟩
  simp only [leq_iff, get?_add']
  constructor
  · intro hle
    refine ⟨fun k => ?_, fun hbot => ?_⟩
    · have hk := hle k
      split at hk
      · rename_i hl
        rcases landsAt_iff.1 hl with ⟨-, rfl⟩
        exact (hgather.1 hk).1
      · exact hk
    · have hk := hle (groupKey e)
      rw [if_pos (landsAt_iff.2 ⟨hbot, rfl⟩)] at hk
      exact (hgather.1 hk).2
  · intro hboth k
    rcases hboth with ⟨hle, hcov⟩
    split
    · rename_i hl
      rcases landsAt_iff.1 hl with ⟨hbot, rfl⟩
      exact hgather.2 ⟨hle _, hcov hbot⟩
    · exact hle k

theorem addAll_leq_iff (hg : g.Filed p) (hes : ∀ e ∈ es, p e) (hh : h.Filed p) :
    (g.addAll es).leq h ↔
      g.leq h ∧ ∀ e ∈ es, AbstractDomain.isBottom e = false → h.Covers e := by
  induction es generalizing g with
  | nil => simp [addAll]
  | cons e es ih =>
      have he := hes e (by simp)
      have htail := ih (L.filed_add hg he) fun f hf => hes f (by simp [hf])
      show ((g.add e).addAll es).leq h ↔ _
      rw [htail, L.add_leq_iff hg he hh, List.forall_mem_cons, and_assoc]

/-- A collection is the least set that covers what was collected. -/
theorem ofList_leq_iff (hes : ∀ e ∈ es, p e) (hh : h.Filed p) :
    (ofList es).leq h ↔ ∀ e ∈ es, AbstractDomain.isBottom e = false → h.Covers e := by
  have hempty : (∅ : Grouped κ ε).leq h := rfl
  exact (L.addAll_leq_iff Filed.empty hes hh).trans (and_iff_right hempty)

/-- When at most one of the collected elements belongs under a key, that element stands there. -/
theorem get?_ofList_iff {k : κ} {a : ε} (hes : ∀ e ∈ es, p e)
    (hone : ∀ e ∈ es, ∀ e' ∈ es, landsAt k e → landsAt k e' → e = e') :
    (ofList es).get? k = some a ↔ a ∈ es ∧ landsAt k a := by
  rw [get?_ofList, ← List.mem_filter]
  have hall e (he : e ∈ es.filter (landsAt k)) e' (he' : e' ∈ es.filter (landsAt k)) : e = e' := by
    rw [List.mem_filter] at he he'
    exact hone e he.1 e' he'.1 he.2 he'.2
  have hkey e (he : e ∈ es.filter (landsAt k)) : p e ∧ groupKey e = k := by
    rw [List.mem_filter] at he
    exact ⟨hes e he.1, (landsAt_iff.1 he.2).2.symm⟩
  generalize es.filter (landsAt k) = landed at hall hkey
  cases landed with
  | nil => simp
  | cons e landed =>
      have hfold := (L k).foldl_join_eq (hkey e (by simp)) fun e' he' =>
        hall e' (List.mem_cons_of_mem e he') e (by simp)
      rw [List.foldl_cons, gather, Option.elim_none, foldl_gather_some, hfold, Option.some.injEq]
      constructor
      · intro heq
        subst heq
        simp
      · exact hall e (by simp) a

theorem get?_rebuild_iff {f : ε → Option ε} (hg : g.Filed p)
    (hf : ∀ k e e', g.get? k = some e → f e = some e' → p e' ∧ groupKey e' = k) {k : κ} {a : ε} :
    (g.rebuild f).get? k = some a ↔
      ∃ e, g.get? k = some e ∧ f e = some a ∧ AbstractDomain.isBottom a = false := by
  have hsource e' (he' : e' ∈ g.elements.filterMap f) :
      ∃ e, g.get? (groupKey e') = some e ∧ f e = some e' := by
    rcases List.mem_filterMap.1 he' with ⟨e, he, hfe⟩
    have hk := hg.get?_groupKey he
    exact ⟨e, (hf _ e e' hk hfe).2 ▸ hk, hfe⟩
  rw [rebuild, L.get?_ofList_iff]
  · rw [landsAt_iff]
    constructor
    · intro hboth
      rcases hboth with ⟨hmem, hbot, rfl⟩
      obtain ⟨e, he, hfe⟩ := hsource a hmem
      exact ⟨e, he, hfe, hbot⟩
    · intro hfound
      rcases hfound with ⟨e, he, hfe, hbot⟩
      exact ⟨List.mem_filterMap.2 ⟨e, mem_elements.2 ⟨k, he⟩, hfe⟩, hbot, (hf k e a he hfe).2.symm⟩
  · intro e' he'
    obtain ⟨e, he, hfe⟩ := hsource e' he'
    exact (hf _ e e' he hfe).1
  · intro e he e' he' hlands hlands'
    obtain ⟨d, hd, hfd⟩ := hsource e he
    obtain ⟨d', hd', hfd'⟩ := hsource e' he'
    rw [← (landsAt_iff.1 hlands).2] at hd
    rw [← (landsAt_iff.1 hlands').2] at hd'
    obtain rfl := Option.some.inj (hd.symm.trans hd')
    exact Option.some.inj (hfd.symm.trans hfd')

/-- A change that keeps keys acts on each element where it stands, and drops what becomes bottom. -/
theorem get?_map {f : ε → ε} (hg : g.Filed p)
    (hf : ∀ k e, g.get? k = some e → p (f e) ∧ groupKey (f e) = k) {k : κ} :
    (g.map f).get? k = ((g.get? k).map f).filter (!AbstractDomain.isBottom ·) := by
  have hmap : g.map f = g.rebuild (some ∘ f) := by
    rw [map, rebuild, List.filterMap_eq_map]
  have hkeep k e e' (he : g.get? k = some e) (he' : (some ∘ f) e = some e') :
      p e' ∧ groupKey e' = k := Option.some.inj he' ▸ hf k e he
  apply Option.ext
  intro a
  rw [hmap, L.get?_rebuild_iff hg hkeep]
  simp only [Function.comp_apply, Option.some.injEq, Option.filter_eq_some_iff,
    Option.map_eq_some_iff, Bool.not_eq_true']
  constructor
  · intro hfound
    rcases hfound with ⟨e, he, rfl, hbot⟩
    exact ⟨⟨e, he, rfl⟩, hbot⟩
  · intro hfound
    rcases hfound with ⟨⟨e, he, rfl⟩, hbot⟩
    exact ⟨e, he, rfl, hbot⟩

section CombineShared

variable {combine : ε → ε → ε}
variable (hcombine : ∀ k e c, g.get? k = some e → h.get? k = some c → p (combine e c))
include hcombine

theorem filed_combineShared (hg : g.Filed p) :
    (g.combineShared combine h).Filed p := by
  apply L.filed_rebuild
  intro e he e' he'
  rcases Option.map_eq_some_iff.1 he' with ⟨c, hc, rfl⟩
  exact hcombine _ e c (hg.get?_groupKey he) hc

/-- What is shared is below a set that covers every combination, under whatever key it comes to
stand. -/
theorem combineShared_leq_iff {i : Grouped κ ε} (hg : g.Filed p) (hi : i.Filed p) :
    (g.combineShared combine h).leq i ↔ ∀ k e c, g.get? k = some e → h.get? k = some c →
      AbstractDomain.isBottom (combine e c) = false → i.Covers (combine e c) := by
  rw [combineShared, rebuild, L.ofList_leq_iff ?_ hi]
  · constructor
    · intro hall k e c he hc
      exact hall _ ((mem_combined hg).2 ⟨k, e, c, he, hc, rfl⟩)
    · intro hall e' he'
      obtain ⟨k, e, c, he, hc, rfl⟩ := (mem_combined hg).1 he'
      exact hall k e c he hc
  · intro e' he'
    obtain ⟨k, e, c, he, hc, rfl⟩ := (mem_combined hg).1 he'
    exact hcombine k e c he hc

omit hcombine in
/-- What is shared and stays under its own key is not merged with anything. -/
theorem get?_combineShared_iff (hg : g.Filed p)
    (hkeep : ∀ k e c, g.get? k = some e → h.get? k = some c →
      p (combine e c) ∧ groupKey (combine e c) = k) {k : κ} {a : ε} :
    (g.combineShared combine h).get? k = some a ↔ ∃ e c, g.get? k = some e ∧
      h.get? k = some c ∧ combine e c = a ∧ AbstractDomain.isBottom a = false := by
  rw [combineShared, L.get?_rebuild_iff hg]
  · constructor
    · intro hfound
      rcases hfound with ⟨e, he, hmap, hbot⟩
      rcases Option.map_eq_some_iff.1 hmap with ⟨c, hc, rfl⟩
      exact ⟨e, c, he, (hg k e he).1 ▸ hc, rfl, hbot⟩
    · intro hfound
      rcases hfound with ⟨e, c, he, hc, rfl, hbot⟩
      refine ⟨e, he, Option.map_eq_some_iff.2 ⟨c, ?_, rfl⟩, hbot⟩
      rw [(hg k e he).1, hc]
  · intro k e e' he hmap
    rcases Option.map_eq_some_iff.1 hmap with ⟨c, hc, rfl⟩
    exact hkeep k e c he ((hg k e he).1 ▸ hc)

end CombineShared

theorem filed_join (hg : g.Filed p) (hh : h.Filed p) : (g.join h).Filed p :=
  L.filed_addAll hg fun _ he => hh.mem he

theorem join_leq_iff {i : Grouped κ ε} (hg : g.Filed p) (hh : h.Filed p) (hi : i.Filed p) :
    (g.join h).leq i ↔ g.leq i ∧ h.leq i := by
  rw [join, L.addAll_leq_iff hg (fun _ he => hh.mem he) hi, hh.leq_iff_covers]
  exact and_congr_right fun _ =>
    ⟨fun hall e he => hall e he (hh.isBottom_eq_false he), fun hall e he _ => hall e he⟩

/-- Both leave what stands under a key in one of the sets alone, and elements of one key widen as they
join. -/
theorem widen_eq_join (hg : g.Filed p) (hh : h.Filed p) : g.widen h = g.join h := by
  have hvalid : h.Valid := (filed_iff.1 hh).1
  refine get?_ext fun k => ?_
  rw [hvalid.get?_widen, hvalid.get?_join]
  cases hk : g.get? k with
  | none => rw [Option.merge_none_left, Option.merge_none_left]
  | some a =>
      cases hk' : h.get? k with
      | none => rfl
      | some b =>
          have hwiden := (L k).widen_eq ⟨(hg k a hk).2.2, (hg k a hk).1⟩
            ⟨(hh k b hk').2.2, (hh k b hk').1⟩
          exact congrArg some hwiden

theorem isEmpty_join (hg : g.Filed p) (hh : h.Filed p) :
    (g.join h).isEmpty = (g.isEmpty && h.isEmpty) := by
  have hle := (L.join_leq_iff hg hh (L.filed_join hg hh)).1 (L.leq_refl (L.filed_join hg hh))
  have hbottom {g : Grouped κ ε} (hg : g.Filed p) : g.isEmpty ↔ g.leq (∅ : Grouped κ ε) := by
    rw [isEmpty_iff, leq_iff]
    simp [Below, Option.eq_none_iff_forall_ne_some]
  rw [Bool.eq_iff_iff, Bool.and_eq_true, hbottom (L.filed_join hg hh), hbottom hg, hbottom hh]
  exact L.join_leq_iff hg hh Filed.empty

theorem joinLaws : JoinLaws fun g : Grouped κ ε => g.Filed p where
  leq_refl hg := L.leq_refl hg
  leq_trans hg hh hi := L.leq_trans hg hh hi
  leq_antisymm hg hh := L.leq_antisymm hg hh
  equals_iff hg hh := L.equals_iff hg hh
  join_mem hg hh := L.filed_join hg hh
  leq_join_left hg hh :=
    ((L.join_leq_iff hg hh (L.filed_join hg hh)).1 (L.leq_refl (L.filed_join hg hh))).1
  leq_join_right hg hh :=
    ((L.join_leq_iff hg hh (L.filed_join hg hh)).1 (L.leq_refl (L.filed_join hg hh))).2
  join_leq hg hh hi hgi hhi := (L.join_leq_iff hg hh hi).2 ⟨hgi, hhi⟩
  widen_eq hg hh := L.widen_eq_join hg hh
  isBottom_join hg hh := L.isEmpty_join hg hh
  leq_of_isBottom _ _ hempty := leq_iff.2 fun k e hk => by
    rw [isEmpty_iff.1 hempty k] at hk
    cases hk

end KeyLaws

end TaintFlow.Grouped
