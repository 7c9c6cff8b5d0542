import TaintFlow.Proofs.Order.Collected
import TaintFlow.Proofs.Validity.Operations

/-!
# Replacing the frames of taint

A transformation of taint replaces each frame by some frames of its own, which may have other kinds
and other keys, and collects what it gets (`expand`). Frames that were apart before may be merged
afterwards. This is invisible to a later step when a joined frame is replaced by what its parts are
replaced by: such a transformation can be carried out before or after taint is joined, and two of
them in a row are one.
-/
namespace TaintFlow

namespace Frame

/-- A property of frames that a joined frame has when both of its parts have it. -/
def Splits (Q : Frame → Prop) : Prop :=
  ∀ f g : Frame, f.kind = g.kind → f.key = g.key → (Q (f.join g) ↔ Q f ∧ Q g)

/-- A joined frame has the key of its parts. -/
theorem splits_key (Q : FrameKey → Prop) : Splits fun f => Q f.key := by
  intro f g _ hkey
  change Q (f.join g).key ↔ Q f.key ∧ Q g.key
  rw [key_join hkey.symm, hkey, and_self]

/-- A change that may be made before or after frames are joined. Frames that are joined have a kind
and a key in common, and still have so when they are changed. -/
structure IsHom (change : Frame → Frame) : Prop where
  kind_eq {f g : Frame} : f.kind = g.kind → f.key = g.key → (change f).kind = (change g).kind
  key_eq {f g : Frame} : f.kind = g.kind → f.key = g.key → (change f).key = (change g).key
  join_eq {f g : Frame} : f.kind = g.kind → f.key = g.key →
    change (f.join g) = (change f).join (change g)

theorem isHom_id : IsHom id where
  kind_eq hkind _ := hkind
  key_eq _ hkey := hkey
  join_eq _ _ := rfl

/-- The frames that take the place of a frame when changes are looked up by kind and key. -/
def replace (changes : Kind → FrameKey → List (Frame → Frame)) (f : Frame) : List Frame :=
  (changes f.kind f.key).map fun change => change f

end Frame

namespace Taint

variable {t u : Taint} {f : Frame} {fs : List Frame} {φ ψ : Frame → List Frame}

/-- What covers both parts covers their join, and conversely. -/
theorem covers_splits (hu : u.Valid) : Frame.Splits u.Covers := by
  intro f g hkind hkey
  have hfg : (f.join g).key = f.key := Frame.key_join hkey.symm
  unfold Covers
  rw [hfg, show (f.join g).kind = f.kind from rfl, ← hkind, ← hkey]
  cases hc : u.frame? f.kind f.key with
  | none => simp [Grouped.not_below_none]
  | some c =>
      simp only [Grouped.below_some]
      have hcmem := key_of_frame? hu hc
      exact (Frame.joinLaws f.kind f.key).join_leq_iff ⟨rfl, rfl⟩ ⟨hkind.symm, hkey.symm⟩ hcmem

section Splits

variable {Q : Frame → Prop}

theorem forall_mem_frames_iff (ht : t.Valid) :
    (∀ f ∈ t.frames, Q f) ↔ ∀ kind key f, t.frame? kind key = some f → Q f := by
  constructor
  · intro hall kind key f hf
    exact hall f (mem_frames_of_frame? ht hf)
  · intro hall f hf
    exact hall f.kind f.key f ((mem_frames_iff ht).1 hf)

variable (hQ : Frame.Splits Q)
include hQ

theorem forall_mem_frames_join_iff (ht : t.Valid) (hu : u.Valid) :
    (∀ f ∈ (t.join u).frames, Q f) ↔ (∀ f ∈ t.frames, Q f) ∧ ∀ f ∈ u.frames, Q f := by
  have htu : (t.join u).Valid := joinLaws.join_mem ht hu
  rw [forall_mem_frames_iff htu, forall_mem_frames_iff ht, forall_mem_frames_iff hu]
  simp only [← forall_and]
  refine forall_congr' fun kind => forall_congr' fun key => ?_
  rw [frame?_join ht hu]
  cases hf : t.frame? kind key with
  | none => simp
  | some f =>
      cases hg : u.frame? kind key with
      | none => simp
      | some g =>
          obtain ⟨hfkind, hfkey⟩ := key_of_frame? ht hf
          obtain ⟨hgkind, hgkey⟩ := key_of_frame? hu hg
          have hsplit := hQ f g (hfkind.trans hgkind.symm) (hfkey.trans hgkey.symm)
          simpa [forall_and] using hsplit

theorem forall_mem_frames_ofList_iff (fs : List Frame) :
    (∀ f ∈ (ofList fs).frames, Q f) ↔ ∀ f ∈ fs, Q f := by
  induction fs with
  | nil => exact Iff.rfl
  | cons f fs ih =>
      have hcons : ofList (f :: fs) = (ofList [f]).join (ofList fs) := ofList_append [f] fs
      have hsingle : (ofList [f]).frames = [f] := rfl
      have hjoin := forall_mem_frames_join_iff hQ (valid_ofList [f]) (valid_ofList fs)
      rw [hcons, hjoin, ih, hsingle, List.forall_mem_singleton, List.forall_mem_cons]

end Splits

theorem mem_kinds_iff_exists_mem_frames (ht : t.Valid) {kind : Kind} :
    kind ∈ t.kinds ↔ ∃ f ∈ t.frames, f.kind = kind := by
  rw [mem_kinds ht]
  constructor
  · intro hfound
    obtain ⟨s, hs⟩ := hfound
    obtain ⟨-, hsome, -⟩ := valid_iff.1 ht kind s hs
    obtain ⟨key, f, hf⟩ := FrameSet.exists_get?_of_isEmpty_eq_false hsome
    have hstands : t.frame? kind key = some f := frame?_eq_some_iff.2 ⟨s, hs, hf⟩
    exact ⟨f, mem_frames_of_frame? ht hstands, (key_of_frame? ht hstands).1⟩
  · intro hfound
    obtain ⟨f, hf, rfl⟩ := hfound
    obtain ⟨s, hs, -⟩ := frame?_eq_some_iff.1 ((mem_frames_iff ht).1 hf)
    exact ⟨s, hs⟩

theorem kind_mem_kinds (ht : t.Valid) (hf : f ∈ t.frames) : f.kind ∈ t.kinds :=
  (mem_kinds_iff_exists_mem_frames ht).2 ⟨f, hf, rfl⟩

/-- Merging frames neither adds a kind and a key nor loses one. -/
theorem exists_mem_frames_ofList_iff (Q : Kind → FrameKey → Prop) (fs : List Frame) :
    (∃ g ∈ (ofList fs).frames, Q g.kind g.key) ↔ ∃ f ∈ fs, Q f.kind f.key := by
  have hother : Frame.Splits fun f => ¬Q f.kind f.key := by
    intro f g hkind hkey
    change ¬Q f.kind (f.join g).key ↔ ¬Q f.kind f.key ∧ ¬Q g.kind g.key
    rw [Frame.key_join hkey.symm, ← hkind, ← hkey, and_self]
  have hnone := forall_mem_frames_ofList_iff hother fs
  simpa using not_congr hnone

theorem mem_kinds_ofList (fs : List Frame) {kind : Kind} :
    kind ∈ (ofList fs).kinds ↔ ∃ f ∈ fs, f.kind = kind := by
  rw [mem_kinds_iff_exists_mem_frames (valid_ofList fs)]
  exact exists_mem_frames_ofList_iff (fun k _ => k = kind) fs

/-- The taint of all frames that take the place of the frames of `t`. -/
def expand (φ : Frame → List Frame) (t : Taint) : Taint := ofList (t.frames.flatMap φ)

theorem valid_expand (φ : Frame → List Frame) (t : Taint) : (t.expand φ).Valid := valid_ofList _

theorem flatMap_leq_iff (hu : u.Valid) (fs : List Frame) :
    (ofList (fs.flatMap φ)).leq u ↔ ∀ f ∈ fs, ∀ g ∈ φ f, u.Covers g := by
  rw [ofList_leq_iff hu]
  simp only [List.mem_flatMap, forall_exists_index, and_imp]
  exact ⟨fun hall f hf g hg => hall g f hf hg, fun hall g f hf hg => hall f hf g hg⟩

theorem expand_congr (h : ∀ f ∈ t.frames, ∀ g, g ∈ φ f ↔ g ∈ ψ f) : t.expand φ = t.expand ψ := by
  refine ofList_eq_of_mem fun g => ?_
  simp only [List.mem_flatMap]
  exact exists_congr fun f => and_congr_right fun hf => h f hf g

theorem expand_singleton (f : Frame) : (ofList [f]).expand φ = ofList (φ f) := by
  have hframes : (ofList [f]).frames = [f] := rfl
  rw [expand, hframes, List.flatMap_singleton]

theorem expand_self (ht : t.Valid) : (t.expand fun f => [f]) = t := by
  rw [expand, List.flatMap_singleton', ofList_frames ht]

theorem mem_kinds_expand {kind : Kind} :
    kind ∈ (t.expand φ).kinds ↔ ∃ f ∈ t.frames, ∃ g ∈ φ f, g.kind = kind := by
  rw [expand, mem_kinds_ofList]
  simp only [List.mem_flatMap]
  constructor
  · intro hfound
    obtain ⟨g, ⟨f, hf, hg⟩, hkind⟩ := hfound
    exact ⟨f, hf, g, hg, hkind⟩
  · intro hfound
    obtain ⟨f, hf, g, hg, hkind⟩ := hfound
    exact ⟨g, ⟨f, hf, hg⟩, hkind⟩

/-- A joined frame is replaced by frames with the same upper bounds as those of its two parts. -/
def Additive (φ : Frame → List Frame) : Prop :=
  ∀ u : Taint, u.Valid → Frame.Splits fun f => ∀ g ∈ φ f, u.Covers g

theorem additive_replace {changes : Kind → FrameKey → List (Frame → Frame)}
    (h : ∀ kind key, ∀ change ∈ changes kind key, Frame.IsHom change) :
    Additive (Frame.replace changes) := by
  intro u hu f g hkind hkey
  have hjoin : (f.join g).key = f.key := Frame.key_join hkey.symm
  simp only [Frame.replace, List.forall_mem_map]
  rw [hjoin, show (f.join g).kind = f.kind from rfl, ← hkind, ← hkey]
  simp only [← forall_and]
  refine forall₂_congr fun change hchange => ?_
  have hom := h f.kind f.key change hchange
  rw [hom.join_eq hkind hkey]
  exact covers_splits hu _ _ (hom.kind_eq hkind hkey) (hom.key_eq hkind hkey)

/-- Frames may be merged before they are replaced. -/
theorem expand_ofList (hφ : Additive φ) (fs : List Frame) :
    (ofList fs).expand φ = ofList (fs.flatMap φ) := by
  refine joinLaws.eq_of_forall_leq_iff (valid_expand φ _) (valid_ofList _) fun u hu => ?_
  refine (flatMap_leq_iff hu _).trans (Iff.trans ?_ (flatMap_leq_iff hu fs).symm)
  exact forall_mem_frames_ofList_iff (hφ u hu) fs

theorem expand_join (hφ : Additive φ) (ht : t.Valid) (hu : u.Valid) :
    (t.join u).expand φ = (t.expand φ).join (u.expand φ) := by
  have hjoin : t.join u = ofList (t.frames ++ u.frames) := by
    rw [ofList_append, ofList_frames ht, ofList_frames hu]
  rw [hjoin, expand_ofList hφ, List.flatMap_append, ofList_append]
  rfl

/-- Between two replacements frames may be merged or not. -/
theorem expand_expand (hψ : Additive ψ) (φ : Frame → List Frame) (t : Taint) :
    (t.expand φ).expand ψ = t.expand fun f => (φ f).flatMap ψ := by
  have hmerged := expand_ofList hψ (t.frames.flatMap φ)
  rw [List.flatMap_assoc] at hmerged
  exact hmerged

theorem expand_leq_expand (hφ : Additive φ) (ht : t.Valid) (hu : u.Valid) (htu : t.leq u) :
    (t.expand φ).leq (u.expand φ) := by
  have hjoin : t.join u = u := joinLaws.join_eq_right ht hu htu
  have hparts := expand_join hφ ht hu
  rw [hjoin] at hparts
  rw [hparts]
  exact joinLaws.leq_join_left (valid_expand φ t) (valid_expand φ u)

/-- A change of whole sets is a replacement of frames when the changed sets have the upper bounds of
the frames that take the place of theirs. -/
theorem mapSets_eq_expand (ht : t.Valid) {change : FrameSet → FrameSet}
    (hvalid : ∀ s, s.Valid → (change s).Valid)
    (hcovers : ∀ u : Taint, u.Valid → ∀ s : FrameSet, s.Valid →
      ((∀ g ∈ (change s).toList, u.Covers g) ↔ ∀ f ∈ s.toList, ∀ g ∈ φ f, u.Covers g)) :
    ⟨t.sets.map change⟩ = t.expand φ := by
  have hsets : ∀ s ∈ t.sets.elements.map change, s.Valid := by
    intro s hs
    obtain ⟨s', hs', rfl⟩ := List.mem_map.1 hs
    exact hvalid s' (ht.2 s' hs')
  refine joinLaws.eq_of_forall_leq_iff (valid_mapSets ht hvalid) (valid_expand φ t) fun u hu => ?_
  refine (collected_leq_iff hsets hu).trans (Iff.trans ?_ (flatMap_leq_iff hu t.frames).symm)
  rw [List.forall_mem_map]
  simp only [mem_frames, forall_exists_index, and_imp]
  constructor
  · intro hall f s hs hf
    exact (hcovers u hu s (ht.2 s hs)).1 (hall s hs) f hf
  · intro hall s hs
    exact (hcovers u hu s (ht.2 s hs)).2 fun f hf => hall f s hs hf

/-- The upper bounds of a set whose frames are changed are those of the changed frames. -/
theorem forall_covers_map_iff (hu : u.Valid) {s : FrameSet} (hs : s.Valid) {change : Frame → Frame}
    (hkind : ∀ f, (change f).kind = f.kind) :
    (∀ g ∈ (s.map change).toList, u.Covers g) ↔ ∀ f ∈ s.toList, u.Covers (change f) := by
  have hkinds : ∀ g ∈ s.toList.map change, g.kind = s.kind := by
    intro g hg
    obtain ⟨f, hf, rfl⟩ := List.mem_map.1 hg
    exact (hkind f).trans (hs.2 f hf)
  refine (forall_covers_ofList_iff hu hkinds).trans ?_
  rw [List.forall_mem_map]

/-- A change of frames that keeps their kinds replaces each frame by the changed one. -/
theorem map_eq_expand (ht : t.Valid) {change : Frame → Frame}
    (hkind : ∀ f, (change f).kind = f.kind) : t.map change = t.expand fun f => [change f] := by
  refine mapSets_eq_expand ht (fun s hs => FrameSet.valid_map hs hkind) fun u hu s hs => ?_
  simp only [forall_covers_map_iff hu hs hkind, List.forall_mem_singleton]

end Taint
end TaintFlow
