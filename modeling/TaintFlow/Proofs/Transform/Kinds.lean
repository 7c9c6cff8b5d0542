import Mathlib.Data.Finset.Dedup
import Mathlib.Data.Finset.Insert
import TaintFlow.Proofs.Transform.Expansion

/-!
# Replacing kinds

A frame is replaced by one frame for each kind that its kind is mapped to, and is given the features
of its old kind unless the kind stays what it is. Whether it does is read off the list of
replacements: the list must hold the old kind once and nothing else. A kind that is listed twice as
its own replacement is thus given features although the set of its kinds is the same. Apart from
that, the order of the list and repetitions in it leave no trace, and without features replacements
compose.
-/
namespace TaintFlow

@[simp] theorem Frame.addInferredFeatures_bottom (f : Frame) :
    f.addInferredFeatures .bottom = f := by
  simp only [addInferredFeatures, MayAlways.compose_bottom]

namespace Taint

variable {t u : Taint} {mapKind : Kind → List Kind} {featuresOf : Kind → MayAlways}

/-- The kind is listed once as its replacement, and nothing else is listed. -/
def StaysListed (mapKind : Kind → List Kind) (kind : Kind) : Prop := mapKind kind = [kind]

/-- The kind is replaced by itself alone, however often it is listed. -/
def Stays (mapKind : Kind → List Kind) (kind : Kind) : Prop := (mapKind kind).toFinset = {kind}

instance (mapKind : Kind → List Kind) : DecidablePred (StaysListed mapKind) := fun kind =>
  inferInstanceAs (Decidable (mapKind kind = [kind]))

instance (mapKind : Kind → List Kind) : DecidablePred (Stays mapKind) := fun kind =>
  inferInstanceAs (Decidable ((mapKind kind).toFinset = {kind}))

theorem Stays.mem_iff {old kind : Kind} (h : Stays mapKind old) :
    kind ∈ mapKind old ↔ kind = old := by
  rw [← List.mem_toFinset, h, Finset.mem_singleton]

/-- Whether a kind stays is decided by the set of its replacements. -/
theorem stays_congr {mapKind' : Kind → List Kind} {old : Kind}
    (h : ∀ kind, kind ∈ mapKind old ↔ kind ∈ mapKind' old) :
    Stays mapKind old ↔ Stays mapKind' old := by
  have hset : (mapKind old).toFinset = (mapKind' old).toFinset := by
    refine Finset.ext fun kind => ?_
    rw [List.mem_toFinset, List.mem_toFinset, h]
  rw [Stays, Stays, hset]

theorem StaysListed.stays {kind : Kind} (h : StaysListed mapKind kind) : Stays mapKind kind := by
  rw [Stays, h]
  rfl

/-- The frames that take the place of a frame: one under each replacement of its kind, with the
features of its kind unless the kind counts as one that stays. -/
def recast (stays : Kind → Prop) [DecidablePred stays] (mapKind : Kind → List Kind)
    (featuresOf : Kind → MayAlways) (f : Frame) : List Frame :=
  (mapKind f.kind).map fun kind =>
    if stays f.kind then f.withKind kind
    else (f.withKind kind).addInferredFeatures (featuresOf f.kind)

section Recast

variable {stays : Kind → Prop} [DecidablePred stays] {f : Frame}

theorem recast_of_stays (h : stays f.kind) :
    recast stays mapKind featuresOf f = (mapKind f.kind).map fun kind => f.withKind kind := by
  simp only [recast, if_pos h]

theorem recast_of_not_stays (h : ¬ stays f.kind) :
    recast stays mapKind featuresOf f =
      (mapKind f.kind).map fun kind =>
        (f.withKind kind).addInferredFeatures (featuresOf f.kind) := by
  simp only [recast, if_neg h]

/-- Bottom adds nothing, whether or not the kind stays. -/
theorem recast_of_bottom (h : featuresOf f.kind = .bottom) :
    recast stays mapKind featuresOf f = (mapKind f.kind).map fun kind => f.withKind kind := by
  by_cases hstays : stays f.kind
  · exact recast_of_stays hstays
  · simp only [recast_of_not_stays hstays, h, Frame.addInferredFeatures_bottom]

/-- Two ways to tell which kinds stay recast a frame alike when they agree on its kind, or when its
kind has no features to give. -/
theorem recast_congr {stays' : Kind → Prop} [DecidablePred stays']
    (h : featuresOf f.kind = .bottom ∨ (stays f.kind ↔ stays' f.kind)) :
    recast stays mapKind featuresOf f = recast stays' mapKind featuresOf f := by
  rcases h with hbottom | hagree
  · rw [recast_of_bottom hbottom, recast_of_bottom hbottom]
  · simp only [recast, hagree]

theorem exists_kind_of_mem_recast {kind : Kind} :
    (∃ g ∈ recast stays mapKind featuresOf f, g.kind = kind) ↔ kind ∈ mapKind f.kind := by
  have hkind (k : Kind) : Frame.kind (if stays f.kind then f.withKind k
      else (f.withKind k).addInferredFeatures (featuresOf f.kind)) = k := by
    split <;> rfl
  simp only [recast, List.mem_map, exists_exists_and_eq_and, hkind, exists_eq_right]

end Recast

/-- Taking up a set amounts to covering what takes the place of its frames. -/
theorem takeUp_leq_iff (ht : t.Valid) (hu : u.Valid) {s : FrameSet} (hs : s.Valid) :
    (takeUp mapKind featuresOf t s).leq u ↔ t.leq u ∧
      ∀ f ∈ s.toList, ∀ g ∈ recast (StaysListed mapKind) mapKind featuresOf f, u.Covers g := by
  unfold takeUp
  split
  -- the kind is listed as it is, and the set is taken up as a whole
  · rename_i hlisted
    refine (addFrames_leq_iff ht hs hu).trans (and_congr_right fun _ => ?_)
    refine forall₂_congr fun f hf => ?_
    have hkind : f.kind = s.kind := hs.2 f hf
    have hstays : StaysListed mapKind f.kind := by rwa [StaysListed, hkind]
    have hself : f.withKind f.kind = f := rfl
    rw [recast_of_stays hstays, hstays, List.map_singleton, hself, List.forall_mem_singleton]
  -- the new frames come one kind after the other, and are asked for one frame after the other
  · rename_i hlisted
    refine (foldl_add_leq_iff ht hu _).trans (and_congr_right fun _ => ?_)
    have hrecast (f : Frame) (hf : f ∈ s.toList) :
        recast (StaysListed mapKind) mapKind featuresOf f = (mapKind s.kind).map fun kind =>
          (f.withKind kind).addInferredFeatures (featuresOf s.kind) := by
      have hkind : f.kind = s.kind := hs.2 f hf
      rw [recast_of_not_stays fun hstays => hlisted (hkind ▸ hstays), hkind]
    simp only [relabel, List.forall_mem_flatMap, List.forall_mem_map]
    constructor
    · intro hall f hf
      rw [hrecast f hf, List.forall_mem_map]
      exact fun kind hkind => hall kind hkind f hf
    · intro hall kind hkind f hf
      have hf' := hall f hf
      rw [hrecast f hf, List.forall_mem_map] at hf'
      exact hf' kind hkind

/-- Sets that are taken up one by one stay below `u` as long as it covers what comes out of them. -/
theorem foldl_takeUp_leq_iff (hu : u.Valid) {sets : List FrameSet} (hsets : ∀ s ∈ sets, s.Valid)
    (ht : t.Valid) :
    (sets.foldl (takeUp mapKind featuresOf) t).leq u ↔ t.leq u ∧
      ∀ f ∈ sets.flatMap FrameSet.toList,
        ∀ g ∈ recast (StaysListed mapKind) mapKind featuresOf f, u.Covers g := by
  induction sets generalizing t with
  | nil => simp
  | cons s sets ih =>
      have hs : s.Valid := hsets s List.mem_cons_self
      have hrest : ∀ s' ∈ sets, s'.Valid := fun s' hs' => hsets s' (List.mem_cons_of_mem s hs')
      rw [List.foldl_cons, ih hrest (valid_takeUp ht hs mapKind featuresOf),
        takeUp_leq_iff ht hu hs, and_assoc, List.flatMap_cons, List.forall_mem_append]

/-- Replacing kinds replaces frames; the sets in which they stand do not matter. -/
theorem transformKinds_eq_expand (ht : t.Valid) :
    t.transformKinds mapKind featuresOf =
      t.expand (recast (StaysListed mapKind) mapKind featuresOf) := by
  refine joinLaws.eq_of_forall_leq_iff (valid_transformKinds ht mapKind featuresOf)
    (valid_expand _ t) fun u hu => Iff.trans ?_ (flatMap_leq_iff hu t.frames).symm
  have hempty : (∅ : Taint).leq u := rfl
  exact (foldl_takeUp_leq_iff hu ht.2 valid_empty).trans (and_iff_right hempty)

theorem mem_kinds_transformKinds (ht : t.Valid) {kind : Kind} :
    kind ∈ (t.transformKinds mapKind featuresOf).kinds ↔ ∃ old ∈ t.kinds, kind ∈ mapKind old := by
  rw [transformKinds_eq_expand ht, mem_kinds_expand]
  simp only [exists_kind_of_mem_recast]
  constructor
  · intro hfound
    obtain ⟨f, hf, hkind⟩ := hfound
    exact ⟨f.kind, kind_mem_kinds ht hf, hkind⟩
  · intro hfound
    obtain ⟨old, hold, hkind⟩ := hfound
    obtain ⟨f, hf, rfl⟩ := (mem_kinds_iff_exists_mem_frames ht).1 hold
    exact ⟨f, hf, hkind⟩

theorem transformKinds_congr (ht : t.Valid) {mapKind' : Kind → List Kind}
    (hsets : ∀ old ∈ t.kinds, ∀ kind, kind ∈ mapKind old ↔ kind ∈ mapKind' old)
    (hlists : ∀ old ∈ t.kinds, Stays mapKind old →
      featuresOf old = .bottom ∨ (StaysListed mapKind old ↔ StaysListed mapKind' old)) :
    t.transformKinds mapKind featuresOf = t.transformKinds mapKind' featuresOf := by
  rw [transformKinds_eq_expand ht, transformKinds_eq_expand ht]
  refine expand_congr fun f hf g => ?_
  have hkind : f.kind ∈ t.kinds := kind_mem_kinds ht hf
  have hagree : featuresOf f.kind = .bottom ∨
      (StaysListed mapKind f.kind ↔ StaysListed mapKind' f.kind) := by
    by_cases hstays : Stays mapKind f.kind
    · exact hlists f.kind hkind hstays
    · have hstays' : ¬ Stays mapKind' f.kind := mt (stays_congr (hsets f.kind hkind)).2 hstays
      exact .inr (iff_of_false (mt StaysListed.stays hstays) (mt StaysListed.stays hstays'))
  rw [recast_congr hagree]
  simp only [recast, List.mem_map, hsets f.kind hkind]

/-- A kind that stays is listed once, or has no features to give. -/
def FollowsSet (mapKind : Kind → List Kind) (featuresOf : Kind → MayAlways) (old : Kind) : Prop :=
  Stays mapKind old → StaysListed mapKind old ∨ featuresOf old = .bottom

instance (mapKind : Kind → List Kind) (featuresOf : Kind → MayAlways) :
    DecidablePred (FollowsSet mapKind featuresOf) := fun old =>
  inferInstanceAs
    (Decidable (Stays mapKind old → StaysListed mapKind old ∨ featuresOf old = .bottom))

/-- Only the set of replacements counts when no kind of the taint is listed repeatedly as the one
replacement of itself. -/
theorem transformKinds_eq_of_followsSet (ht : t.Valid)
    (h : ∀ old ∈ t.kinds, FollowsSet mapKind featuresOf old) :
    t.transformKinds mapKind featuresOf = t.expand (recast (Stays mapKind) mapKind featuresOf) := by
  rw [transformKinds_eq_expand ht]
  refine expand_congr fun f hf g => ?_
  have hagree : featuresOf f.kind = .bottom ∨
      (StaysListed mapKind f.kind ↔ Stays mapKind f.kind) := by
    by_cases hstays : Stays mapKind f.kind
    · rcases h f.kind (kind_mem_kinds ht hf) hstays with hlisted | hbottom
      · exact .inr (iff_of_true hlisted hstays)
      · exact .inl hbottom
    · exact .inr (iff_of_false (mt StaysListed.stays hstays) hstays)
  rw [recast_congr hagree]

/-- The frames made for a kind that stays fall together, however often it is listed. -/
theorem Stays.ofList_map {old : Kind} (h : Stays mapKind old) (make : Kind → Frame) :
    ofList ((mapKind old).map make) = ofList [make old] := by
  refine ofList_eq_of_mem fun g => ?_
  simp only [List.mem_map, h.mem_iff, exists_eq_left, List.mem_singleton, eq_comm (a := g)]

/-- A frame without features shows whether its kind was given some. -/
theorem followsSet_of_forall
    (h : ∀ u : Taint, u.Valid →
      u.transformKinds mapKind featuresOf = u.expand (recast (Stays mapKind) mapKind featuresOf))
    (old : Kind) : FollowsSet mapKind featuresOf old := by
  intro hstays
  by_cases hlisted : StaysListed mapKind old
  · exact .inl hlisted
  · right
    let f : Frame := .declared old (.ofRoot .leaf)
    have hvalid := valid_ofList [f]
    have hset : (ofList [f]).expand (recast (Stays mapKind) mapKind featuresOf) = ofList [f] := by
      rw [expand_singleton, recast_of_stays hstays]
      exact hstays.ofList_map fun kind => f.withKind kind
    have hlist : (ofList [f]).expand (recast (StaysListed mapKind) mapKind featuresOf) =
        ofList [f.addInferredFeatures (featuresOf old)] := by
      rw [expand_singleton, recast_of_not_stays hlisted]
      exact hstays.ofList_map fun kind => (f.withKind kind).addInferredFeatures (featuresOf old)
    have hsame := h (ofList [f]) hvalid
    rw [transformKinds_eq_expand hvalid, hset, hlist] at hsame
    have hframes : [f.addInferredFeatures (featuresOf old)] = [f] := congrArg frames hsame
    have hfeatures : MayAlways.bottom.compose (featuresOf old) = .bottom :=
      congrArg Frame.locallyInferred (List.singleton_inj.1 hframes)
    rwa [MayAlways.bottom_compose] at hfeatures

/-- Replacing kinds gives the join of the frames that take the place of each frame, which are given
features unless their old kind is listed once as its only replacement. This is the same as to ask
whether the set of replacements is the old kind alone, provided that such a kind is listed once or
has no features to give; for all taint it is the same only then. The order of the replacements and
repetitions among them do not matter, except for a kind with features that is replaced by itself
alone. A kind is found afterwards when it replaces one that was found before. -/
theorem transformKinds_isExact (ht : t.Valid) (mapKind : Kind → List Kind)
    (featuresOf : Kind → MayAlways) :
    t.transformKinds mapKind featuresOf =
        t.expand (recast (StaysListed mapKind) mapKind featuresOf) ∧
      ((∀ old ∈ t.kinds, FollowsSet mapKind featuresOf old) →
        t.transformKinds mapKind featuresOf =
          t.expand (recast (Stays mapKind) mapKind featuresOf)) ∧
      ((∀ u : Taint, u.Valid →
          u.transformKinds mapKind featuresOf =
            u.expand (recast (Stays mapKind) mapKind featuresOf)) ↔
        ∀ old, FollowsSet mapKind featuresOf old) ∧
      (∀ mapKind' : Kind → List Kind,
        (∀ old ∈ t.kinds, ∀ kind, kind ∈ mapKind old ↔ kind ∈ mapKind' old) →
        (∀ old ∈ t.kinds, Stays mapKind old →
          featuresOf old = .bottom ∨ (StaysListed mapKind old ↔ StaysListed mapKind' old)) →
        t.transformKinds mapKind featuresOf = t.transformKinds mapKind' featuresOf) ∧
      ∀ kind, kind ∈ (t.transformKinds mapKind featuresOf).kinds ↔
        ∃ old ∈ t.kinds, kind ∈ mapKind old := by
  refine ⟨transformKinds_eq_expand ht, transformKinds_eq_of_followsSet ht, ?_, ?_, ?_⟩
  · constructor
    · exact followsSet_of_forall
    · intro h u hu
      exact transformKinds_eq_of_followsSet hu fun old _ => h old
  · intro mapKind' hsets hlists
    exact transformKinds_congr ht hsets hlists
  · intro kind
    exact mem_kinds_transformKinds ht

/-- A kind that is replaced joins another one that stays: what was added there is no longer certain.
It may be listed in any order and repeatedly. -/
theorem transformKinds_isExact_of_merged_kinds :
    let replaced : Frame := .declared ⟨"A"⟩ (.ofRoot .leaf)
    let standing : Frame := { Frame.declared ⟨"B"⟩ (.ofRoot .leaf) with locallyInferred := .empty }
    let t := ofList [replaced, standing]
    let mapKind : Kind → List Kind := fun k => if k = ⟨"A"⟩ then [⟨"C"⟩, ⟨"B"⟩] else [k]
    let mapKind' : Kind → List Kind := fun k => if k = ⟨"A"⟩ then [⟨"B"⟩, ⟨"C"⟩, ⟨"B"⟩] else [k]
    let featuresOf : Kind → MayAlways := fun _ => .ofAlways (.ofList [⟨"cast"⟩])
    t.Valid ∧
      t.transformKinds mapKind featuresOf = t.expand (recast (Stays mapKind) mapKind featuresOf) ∧
      t.transformKinds mapKind featuresOf = t.transformKinds mapKind' featuresOf ∧
      ⟨"A"⟩ ∉ (t.transformKinds mapKind featuresOf).kinds ∧
      (t.transformKinds mapKind featuresOf).frames =
        [{ standing with locallyInferred := .ofMay (.ofList [⟨"cast"⟩]) },
          { replaced with
            kind := ⟨"C"⟩, locallyInferred := .ofAlways (.ofList [⟨"cast"⟩]) }] := by
  intro replaced standing t mapKind mapKind' featuresOf
  have ht : t.Valid := valid_ofList _
  obtain ⟨-, hbySet, -, horder, hkinds⟩ := transformKinds_isExact ht mapKind featuresOf
  have hsame : ∀ old ∈ t.kinds, ∀ kind, kind ∈ mapKind old ↔ kind ∈ mapKind' old := by
    intro old _ kind
    by_cases hold : old = ⟨"A"⟩
    · simp only [mapKind, mapKind', hold, if_true]
      refine (List.mem_cons.trans (or_iff_right_of_imp fun hkind => ?_)).symm
      rw [hkind]
      decide
    · simp only [mapKind, mapKind', hold, if_false]
  refine ⟨ht, hbySet (by decide), horder mapKind' hsame (by decide), ?_, by decide⟩
  rw [hkinds]
  decide

/-- A kind that is listed twice as its own replacement is given features, although it stays as it is
and is given none when it is listed once. -/
theorem transformKinds_of_repeated_kind :
    let t := ofList [Frame.declared ⟨"Source"⟩ (.ofRoot .leaf)]
    let once : Kind → List Kind := fun _ => [⟨"Source"⟩]
    let twice : Kind → List Kind := fun _ => [⟨"Source"⟩, ⟨"Source"⟩]
    let featuresOf : Kind → MayAlways := fun _ => .ofAlways (.ofList [⟨"cast"⟩])
    t.Valid ∧ (once ⟨"Source"⟩).toFinset = (twice ⟨"Source"⟩).toFinset ∧
      t.expand (recast (Stays twice) twice featuresOf) = t ∧
      t.transformKinds once featuresOf = t ∧
      t.transformKinds twice featuresOf ≠ t := by
  intro t once twice featuresOf
  exact ⟨valid_ofList _, by decide, by decide, by decide, by decide⟩

/-! ### Replacements without features -/

theorem isHom_withKind (kind : Kind) : Frame.IsHom (Frame.withKind kind) where
  kind_eq _ _ := rfl
  key_eq _ hkey := hkey
  join_eq _ _ := rfl

/-- Without features every frame is merely put under other kinds. -/
theorem transformKinds_bottom_eq_expand (ht : t.Valid) (mapKind : Kind → List Kind) :
    (t.transformKinds mapKind fun _ => .bottom) =
      t.expand (Frame.replace fun kind _ => (mapKind kind).map Frame.withKind) := by
  rw [transformKinds_eq_expand ht]
  refine expand_congr fun f _ g => ?_
  rw [recast_of_bottom rfl, Frame.replace, List.map_map]
  rfl

theorem additive_withKinds (mapKind : Kind → List Kind) :
    Additive (Frame.replace fun kind _ => (mapKind kind).map Frame.withKind) := by
  refine additive_replace fun kind _ change hchange => ?_
  obtain ⟨kind', -, rfl⟩ := List.mem_map.1 hchange
  exact isHom_withKind kind'

/-- Replacements without features compose. To replace every kind by itself changes nothing, and to
replace every kind by nothing leaves nothing. -/
theorem transformKinds_comp (ht : t.Valid) (first next : Kind → List Kind)
    (featuresOf : Kind → MayAlways) :
    ((t.transformKinds first fun _ => .bottom).transformKinds next fun _ => .bottom) =
        (t.transformKinds (fun kind => (first kind).flatMap next) fun _ => .bottom) ∧
      t.transformKinds (fun kind => [kind]) featuresOf = t ∧
      t.transformKinds (fun _ => []) featuresOf = ∅ := by
  refine ⟨?_, ?_, ?_⟩
  · have hfirst := valid_transformKinds ht first fun _ => .bottom
    rw [transformKinds_bottom_eq_expand hfirst, transformKinds_bottom_eq_expand ht,
      transformKinds_bottom_eq_expand ht, expand_expand (additive_withKinds next)]
    refine expand_congr fun f _ g => ?_
    simp only [Frame.replace, List.map_map, List.flatMap_map, List.map_flatMap]
    rfl
  · have hself : recast (StaysListed fun kind => [kind]) (fun kind => [kind]) featuresOf =
        fun f => [f] := by
      funext f
      exact recast_of_stays rfl
    rw [transformKinds_eq_expand ht, hself, expand_self ht]
  · rw [transformKinds_eq_expand ht]
    have hnone :
        t.frames.flatMap (recast (StaysListed fun _ => []) (fun _ => []) featuresOf) = [] :=
      List.flatMap_eq_nil_iff.2 fun _ _ => rfl
    rw [expand, hnone]
    rfl

/-- Two kinds are merged by the first replacement and taken apart again by the second one, which
lists one of them twice. -/
theorem transformKinds_comp_of_merged_kinds :
    let near : Frame := .declared ⟨"A"⟩ (.ofRoot .leaf)
    let far : Frame := { Frame.declared ⟨"B"⟩ (.ofRoot .leaf) with distance := 2 }
    let t := ofList [near, far]
    let first : Kind → List Kind := fun _ => [⟨"C"⟩]
    let next : Kind → List Kind := fun k => if k = ⟨"C"⟩ then [⟨"A"⟩, ⟨"C"⟩, ⟨"A"⟩] else [k]
    t.Valid ∧ t.frames.length = 2 ∧ (t.transformKinds first fun _ => .bottom).frames.length = 1 ∧
      ((t.transformKinds first fun _ => .bottom).transformKinds next fun _ => .bottom) =
        (t.transformKinds (fun kind => (first kind).flatMap next) fun _ => .bottom) ∧
      (t.transformKinds (fun kind => (first kind).flatMap next) fun _ => .bottom).kinds =
        [⟨"A"⟩, ⟨"C"⟩] := by
  intro near far t first next
  have ht : t.Valid := valid_ofList _
  obtain ⟨hcomp, -, -⟩ := transformKinds_comp ht first next fun _ => .bottom
  exact ⟨ht, by decide, by decide, hcomp, by decide⟩

end Taint
end TaintFlow
