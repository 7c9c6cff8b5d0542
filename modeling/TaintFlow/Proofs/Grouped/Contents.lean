import TaintFlow.Grouped

/-!
# What a grouped set holds

Each operation on a grouped set is described by what stands under a key afterwards. Elements that
are collected come to stand under their keys, joined in the order in which they came
(`get?_addAll`); this holds of every list of elements and needs no law.
-/
namespace TaintFlow.Grouped
open Grouping

variable {κ ε : Type}

section Gather

variable [Grouping ε κ]

/-- What stands under a key after an element with that key was added. -/
def gather (standing : Option ε) (e : ε) : Option ε :=
  some (standing.elim e (AbstractDomain.join · e))

/-- Once something stands under a key, gathering more is a fold of joins. -/
theorem foldl_gather_some (es : List ε) (e : ε) :
    es.foldl gather (some e) = some (es.foldl AbstractDomain.join e) := by
  induction es generalizing e with
  | nil => rfl
  | cons f es ih => exact ih (AbstractDomain.join e f)

theorem foldl_gather_isSome (es : List ε) (standing : Option ε) :
    (es.foldl gather standing).isSome = (standing.isSome || !es.isEmpty) := by
  cases es with
  | nil => simp
  | cons e es =>
      rw [List.foldl_cons, gather, foldl_gather_some]
      simp

variable [DecidableEq κ]

/-- Whether adding the element changes what stands under the key. -/
def landsAt (k : κ) (e : ε) : Bool := !AbstractDomain.isBottom e && decide (k = groupKey e)

theorem landsAt_iff {k : κ} {e : ε} :
    landsAt k e ↔ AbstractDomain.isBottom e = false ∧ k = groupKey e := by
  simp only [landsAt, Bool.and_eq_true, Bool.not_eq_true', decide_eq_true_eq]

/-- Elements that all have one key stand under that key alone. -/
theorem filter_landsAt {es : List ε} {k k' : κ}
    (h : ∀ e ∈ es, AbstractDomain.isBottom e = false ∧ groupKey e = k') :
    es.filter (landsAt k) = if k = k' then es else [] := by
  split
  · rename_i heq
    refine List.filter_eq_self.2 fun e he => landsAt_iff.2 ⟨(h e he).1, ?_⟩
    rw [heq, (h e he).2]
  · rename_i hne
    refine List.filter_eq_nil_iff.2 fun e he hlands => hne ?_
    rw [(landsAt_iff.1 hlands).2, (h e he).2]

end Gather

variable [Ord κ] [DecidableEq κ]

@[simp] theorem get?_empty (k : κ) : (∅ : Grouped κ ε).get? k = none := rfl

section Elements

variable [Std.LawfulEqOrd κ]

theorem mem_elements {g : Grouped κ ε} {e : ε} : e ∈ g.elements ↔ ∃ k, g.get? k = some e := by
  simp only [elements, SortedMap.values, List.mem_map, get?, SortedMap.get?_eq_some_iff]
  constructor
  · intro hfound
    obtain ⟨⟨k, _⟩, h, rfl⟩ := hfound
    exact ⟨k, h⟩
  · intro hfound
    obtain ⟨k, h⟩ := hfound
    exact ⟨(k, e), h, rfl⟩

theorem isEmpty_iff {g : Grouped κ ε} : g.isEmpty ↔ ∀ k, g.get? k = none := by
  have he : g.isEmpty ↔ g.elements = [] := by
    simp only [isEmpty, SortedMap.isEmpty, elements, SortedMap.values, List.isEmpty_iff,
      List.map_eq_nil_iff]
  rw [he, List.eq_nil_iff_forall_not_mem]
  simp only [mem_elements, not_exists, Option.eq_none_iff_forall_ne_some]
  exact ⟨fun h k e => h e k, fun h e k => h k e⟩

theorem mem_keys {g : Grouped κ ε} {k : κ} : k ∈ g.groups.keys ↔ (g.get? k).isSome := by
  simp only [SortedMap.keys, List.mem_map, get?, Option.isSome_iff_exists,
    SortedMap.get?_eq_some_iff]
  constructor
  · intro hfound
    obtain ⟨⟨_, e⟩, h, rfl⟩ := hfound
    exact ⟨e, h⟩
  · intro hfound
    obtain ⟨e, h⟩ := hfound
    exact ⟨(k, e), h, rfl⟩

omit [DecidableEq κ] in
theorem nodup_keys (g : Grouped κ ε) : g.groups.keys.Nodup := by
  refine List.pairwise_map.2 (g.groups.ascending.imp fun {a b} hlt heq => ?_)
  have hless : compare a.1 b.1 = .lt := hlt
  have hself : compare b.1 b.1 = .eq := Std.ReflCmp.compare_self
  rw [heq, hself] at hless
  cases hless

theorem Valid.map_groupKey [Grouping ε κ] {g : Grouped κ ε} (hg : g.Valid) :
    g.elements.map groupKey = g.groups.keys := by
  rw [elements, SortedMap.values, SortedMap.keys, List.map_map]
  apply List.map_congr_left
  intro e he
  exact (hg e.1 e.2 (SortedMap.get?_eq_some_iff.2 he)).1

theorem Valid.nodup_elements [Grouping ε κ] {g : Grouped κ ε} (hg : g.Valid) :
    g.elements.Nodup := by
  have hkeys : (g.elements.map groupKey).Nodup := hg.map_groupKey ▸ nodup_keys g
  exact (List.pairwise_map.1 hkeys).imp fun hne heq => hne (congrArg groupKey heq)

/-- What the elements of a set change under a key is what stands under the key there. -/
theorem Valid.filter_landsAt [Grouping ε κ] {g : Grouped κ ε} (hg : g.Valid) (k : κ) :
    g.elements.filter (landsAt k) = (g.get? k).toList := by
  have hmem (e : ε) : e ∈ g.elements.filter (landsAt k) ↔ g.get? k = some e := by
    rw [List.mem_filter, landsAt_iff, mem_elements]
    constructor
    · intro hboth
      obtain ⟨⟨k', hk'⟩, -, rfl⟩ := hboth
      rw [(hg k' e hk').1, hk']
    · intro hk
      exact ⟨⟨k, hk⟩, (hg k e hk).2, (hg k e hk).1.symm⟩
  cases hk : g.get? k with
  | none =>
      refine List.eq_nil_iff_forall_not_mem.2 fun e he => ?_
      cases hk.symm.trans ((hmem e).1 he)
  | some e =>
      have hnodup := hg.nodup_elements.filter (landsAt k)
      refine List.perm_singleton.1 ((List.perm_ext_iff_of_nodup hnodup ?_).2 fun e' => ?_)
      · exact List.pairwise_singleton _ e
      · rw [hmem, hk, Option.some.injEq, List.mem_singleton, eq_comm]

theorem size_le_size {g h : Grouped κ ε} (hsub : ∀ k, (g.get? k).isSome → (h.get? k).isSome) :
    g.size ≤ h.size := by
  have hlen := List.Nodup.length_le_of_subset (nodup_keys g) fun k hk =>
    mem_keys.2 (hsub k (mem_keys.1 hk))
  simp only [SortedMap.keys, List.length_map] at hlen
  exact hlen

/-- A set that has no more groups than one whose keys it takes has the same keys. -/
theorem isSome_get?_of_size_le {g h : Grouped κ ε}
    (hsub : ∀ k, (g.get? k).isSome → (h.get? k).isSome) (hsize : h.size ≤ g.size) {k : κ}
    (hk : (h.get? k).isSome) : (g.get? k).isSome := by
  apply Classical.byContradiction
  intro hnone
  have hnodup : (k :: g.groups.keys).Nodup :=
    List.nodup_cons.2 ⟨fun hmem => hnone (mem_keys.1 hmem), nodup_keys g⟩
  have hsubset : k :: g.groups.keys ⊆ h.groups.keys := by
    intro k' hk'
    rcases List.mem_cons.1 hk' with rfl | hk'
    · exact mem_keys.2 hk
    · exact mem_keys.2 (hsub k' (mem_keys.1 hk'))
  have hlen := hnodup.length_le_of_subset hsubset
  simp only [List.length_cons, SortedMap.keys, List.length_map] at hlen
  simp only [size, SortedMap.size] at hsize
  omega

theorem get?_filter {keep : ε → Bool} {g : Grouped κ ε} {k : κ} :
    (g.filter keep).get? k = (g.get? k).filter keep := SortedMap.get?_filter

end Elements

variable [Std.TransOrd κ] [Std.LawfulEqOrd κ]

theorem get?_ext {g h : Grouped κ ε} (hgh : ∀ k, g.get? k = h.get? k) : g = h := by
  cases g
  cases h
  exact congrArg Grouped.mk (SortedMap.ext hgh)

theorem eq_empty_of_isEmpty {g : Grouped κ ε} (h : g.isEmpty) : g = ∅ :=
  get?_ext fun k => isEmpty_iff.1 h k

variable [Grouping ε κ]

theorem get?_add' {g : Grouped κ ε} {e : ε} {k : κ} :
    (g.add e).get? k = if landsAt k e then gather (g.get? k) e else g.get? k := by
  simp only [get?_add, landsAt_iff, gather]

omit [Std.LawfulEqOrd κ] in
theorem elements_add_empty {e : ε} (hbot : AbstractDomain.isBottom e = false) :
    ((∅ : Grouped κ ε).add e).elements = [e] := by
  unfold add
  rw [hbot]
  rfl

theorem get?_addAll {g : Grouped κ ε} {es : List ε} {k : κ} :
    (g.addAll es).get? k = (es.filter (landsAt k)).foldl gather (g.get? k) := by
  induction es generalizing g with
  | nil => rfl
  | cons e es ih =>
      have hcons : g.addAll (e :: es) = (g.add e).addAll es := rfl
      rw [hcons, ih, get?_add', List.filter_cons]
      split <;> rfl

theorem get?_ofList {es : List ε} {k : κ} :
    (ofList es).get? k = (es.filter (landsAt k)).foldl gather none := get?_addAll

theorem Valid.get?_join {g h : Grouped κ ε} (hh : h.Valid) (k : κ) :
    (g.join h).get? k = (g.get? k).merge AbstractDomain.join (h.get? k) := by
  rw [join, get?_addAll, hh.filter_landsAt]
  cases g.get? k <;> cases h.get? k <;> rfl

theorem get?_widenAt {g : Grouped κ ε} {k k' : κ} {e : ε}
    (hbot : AbstractDomain.isBottom e = false) : (g.widenAt k e).get? k' =
      if k' = k then (g.get? k).merge AbstractDomain.widen (some e) else g.get? k' := by
  have hput (a : ε) : get? ⟨g.groups.insert k a⟩ k' = if k' = k then some a else g.get? k' := by
    simp only [get?, SortedMap.get?_insert]
  unfold widenAt
  cases hstanding : g.get? k with
  | none =>
      simp only [hbot, Bool.false_eq_true, if_false]
      exact hput e
  | some a => exact hput (AbstractDomain.widen a e)

/-- Keys do not repeat, so widening by a set touches what stands under a key once. -/
theorem Valid.get?_widen {g h : Grouped κ ε} (hh : h.Valid) (k : κ) :
    (g.widen h).get? k = (g.get? k).merge AbstractDomain.widen (h.get? k) := by
  have hentries : ∀ entry ∈ h.groups.entries, AbstractDomain.isBottom entry.2 = false :=
    fun entry hentry => (hh entry.1 entry.2 (SortedMap.get?_eq_some_iff.2 hentry)).2
  have hnodup := nodup_keys h
  rw [SortedMap.keys] at hnodup
  change (h.groups.entries.foldl (fun acc entry => acc.widenAt entry.1 entry.2) g).get? k =
    (g.get? k).merge AbstractDomain.widen
      ((h.groups.entries.find? fun entry => decide (entry.1 = k)).map Prod.snd)
  generalize h.groups.entries = entries at hentries hnodup
  induction entries generalizing g with
  | nil => simp
  | cons entry entries ih =>
      obtain ⟨hbot, hentries⟩ := List.forall_mem_cons.1 hentries
      obtain ⟨hfresh, hnodup⟩ := List.nodup_cons.1 hnodup
      rw [List.foldl_cons, ih hentries hnodup, get?_widenAt hbot, List.find?_cons]
      by_cases hk : k = entry.1
      · subst hk
        have hnone : entries.find? (fun other => decide (other.1 = entry.1)) = none := by
          refine List.find?_eq_none.2 fun other hother heq => hfresh ?_
          rw [← of_decide_eq_true heq]
          exact List.mem_map_of_mem hother
        simp [hnone]
      · simp [hk, Ne.symm hk]

/-- A join of sets without a common key holds the elements of both and no others. -/
theorem Valid.mem_elements_join {g h : Grouped κ ε} (hh : h.Valid)
    (hdisjoint : ∀ k, g.get? k = none ∨ h.get? k = none) {e : ε} :
    e ∈ (g.join h).elements ↔ e ∈ g.elements ∨ e ∈ h.elements := by
  simp only [mem_elements, ← exists_or, hh.get?_join]
  refine exists_congr fun k => ?_
  rcases hdisjoint k with hnone | hnone
  · simp [hnone]
  · simp [hnone]

/-- A key is taken after a collection when an element with that key was collected. -/
theorem isSome_get?_ofList {es : List ε} {k : κ} :
    ((ofList es).get? k).isSome ↔
      ∃ e ∈ es, AbstractDomain.isBottom e = false ∧ groupKey e = k := by
  have hne : (!(es.filter (landsAt k)).isEmpty) = true ↔ ∃ e ∈ es, landsAt k e = true := by
    rw [Bool.not_eq_true', ← Bool.not_eq_true, List.isEmpty_iff, List.filter_eq_nil_iff]
    simp only [Classical.not_forall, Classical.not_not, exists_prop]
  rw [get?_ofList, foldl_gather_isSome, Option.isSome_none, Bool.false_or, hne]
  simp only [landsAt_iff, eq_comm (a := k)]

end TaintFlow.Grouped
