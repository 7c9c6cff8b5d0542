import TaintFlow.Proofs.Transform.Kinds

/-!
# Structural transformations

Some transformations look at nothing of a frame but its kind and its key, and change it in a way
that a join does not notice: ports are extended, local positions are added or replaced, kinds are
replaced, invalid frames are dropped. Ports that are cut off at their maximal depth and kinds that
are replaced by one kind make frames fall together that were apart, and sets may lose all their
frames. Still, to transform before or after taint is joined makes no difference.
-/
namespace TaintFlow

namespace Frame

theorem isHom_addLocalPosition (position : Position) : IsHom (addLocalPosition position) where
  kind_eq hkind _ := hkind
  key_eq _ hkey := hkey
  join_eq {f g} _ _ := by
    have hpositions : (f.localPositions.union g.localPositions).insert position =
        (f.localPositions.insert position).union (g.localPositions.insert position) := by
      refine SortedSet.ext fun x => ?_
      rw [SortedSet.mem_insert, SortedSet.mem_union, SortedSet.mem_union, SortedSet.mem_insert,
        SortedSet.mem_insert]
      exact or_or_distrib_left
    unfold addLocalPosition
    simp only [join, hpositions]

theorem isHom_setLocalPositions (positions : SortedSet Position) :
    IsHom (setLocalPositions positions) where
  kind_eq hkind _ := hkind
  key_eq _ hkey := hkey
  join_eq {f g} _ _ := by
    have hpositions : positions.union positions = positions := by
      refine SortedSet.ext fun x => ?_
      rw [SortedSet.mem_union, or_self]
    unfold setLocalPositions
    simp only [join, hpositions]

theorem key_appendPort (element : PathElement) (f : Frame) :
    (f.appendPort element).key = { f.key with port := f.key.port.append element } := rfl

theorem isHom_appendPort (element : PathElement) : IsHom (appendPort element) where
  kind_eq hkind _ := hkind
  key_eq {f g} _ hkey := by
    rw [key_appendPort, key_appendPort, hkey]
  join_eq _ _ := rfl

end Frame

namespace Taint

variable {t a b : Taint}

/-- It makes no difference whether `a` and `b` are joined before or after the operation, which keeps
their order. -/
def RespectsJoin (op : Taint → Taint) (a b : Taint) : Prop :=
  op (a.join b) = (op a).join (op b) ∧ (a.leq b → (op a).leq (op b))

/-- What replaces frames by an additive replacement respects joins. -/
theorem respectsJoin_of_expand {op : Taint → Taint} {φ : Frame → List Frame} (hφ : Additive φ)
    (hop : ∀ t : Taint, t.Valid → op t = t.expand φ) (ha : a.Valid) (hb : b.Valid) :
    RespectsJoin op a b := by
  have hab : (a.join b).Valid := joinLaws.join_mem ha hb
  constructor
  · rw [hop _ hab, hop a ha, hop b hb]
    exact expand_join hφ ha hb
  · intro hle
    rw [hop a ha, hop b hb]
    exact expand_leq_expand hφ ha hb hle

theorem respectsJoin_map {change : Frame → Frame} (hom : Frame.IsHom change)
    (hkind : ∀ f, (change f).kind = f.kind) (ha : a.Valid) (hb : b.Valid) :
    RespectsJoin (map change) a b := by
  have hadd : Additive (Frame.replace fun _ _ => [change]) := by
    refine additive_replace fun _ _ change' hchange' => ?_
    rwa [List.mem_singleton.1 hchange']
  exact respectsJoin_of_expand hadd (fun t ht => map_eq_expand ht hkind) ha hb

/-- The change that is made to a frame when an element is appended to the ports of some kinds. -/
def portChange (element : PathElement) (p : Kind → Bool) (kind : Kind) : Frame → Frame :=
  if p kind then Frame.appendPort element else id

theorem appendPort_eq_expand (ht : t.Valid) (element : PathElement) (p : Kind → Bool) :
    t.appendPort element p =
      t.expand (Frame.replace fun kind _ => [portChange element p kind]) := by
  refine mapSets_eq_expand ht (fun s hs => ?_) fun u hu s hs => ?_
  · split
    · exact FrameSet.valid_map hs fun _ => rfl
    · exact hs
  · have hreplace (f : Frame) (hf : f ∈ s.toList) :
        Frame.replace (fun kind _ => [portChange element p kind]) f =
          [portChange element p s.kind f] := by
      rw [Frame.replace, hs.2 f hf, List.map_singleton]
    have hright : (∀ f ∈ s.toList,
        ∀ g ∈ Frame.replace (fun kind _ => [portChange element p kind]) f, u.Covers g) ↔
          ∀ f ∈ s.toList, u.Covers (portChange element p s.kind f) := by
      refine forall₂_congr fun f hf => ?_
      rw [hreplace f hf, List.forall_mem_singleton]
    rw [hright]
    unfold portChange
    split
    · exact forall_covers_map_iff hu hs fun _ => rfl
    · exact Iff.rfl

theorem additive_portChange (element : PathElement) (p : Kind → Bool) :
    Additive (Frame.replace fun kind _ => [portChange element p kind]) := by
  refine additive_replace fun kind _ change hchange => ?_
  rw [List.mem_singleton.1 hchange, portChange]
  split
  · exact Frame.isHom_appendPort element
  · exact Frame.isHom_id

section FilterInvalidFrames

variable {valid : Option Signature → AccessPath → Kind → Bool}

/-- A frame that is valid stays as it is, any other one is dropped. -/
def keepValid (valid : Option Signature → AccessPath → Kind → Bool) (kind : Kind) (key : FrameKey) :
    List (Frame → Frame) :=
  if valid key.callee key.port kind then [id] else []

theorem filterInvalidFrames_eq_expand (ht : t.Valid) :
    t.filterInvalidFrames valid = t.expand (Frame.replace (keepValid valid)) := by
  refine mapSets_eq_expand ht (fun s hs => FrameSet.valid_filter hs _) fun u hu s hs => ?_
  simp only [FrameSet.toList_filter, List.mem_filter, and_imp]
  refine forall₂_congr fun f hf => ?_
  cases hvalid : valid f.callee f.port f.kind <;> simp [Frame.replace, keepValid, Frame.key, hvalid]

theorem additive_keepValid : Additive (Frame.replace (keepValid valid)) := by
  refine additive_replace fun kind key change hchange => ?_
  unfold keepValid at hchange
  split at hchange
  · rw [List.mem_singleton.1 hchange]
    exact Frame.isHom_id
  · cases hchange

theorem frame?_filterInvalidFrames (ht : t.Valid) (kind : Kind) (key : FrameKey) :
    (t.filterInvalidFrames valid).frame? kind key =
      (t.frame? kind key).filter fun f => valid f.callee f.port f.kind := by
  refine (frame?_mapSets ht fun s hs => ⟨FrameSet.valid_filter hs _, rfl⟩).trans ?_
  rw [frame?]
  cases t.get? kind with
  | none => rfl
  | some s => exact Grouped.get?_filter

theorem mem_frames_filterInvalidFrames (ht : t.Valid) {f : Frame} :
    f ∈ (t.filterInvalidFrames valid).frames ↔
      f ∈ t.frames ∧ valid f.callee f.port f.kind := by
  rw [mem_frames_iff (valid_filterInvalidFrames ht valid), mem_frames_iff ht,
    frame?_filterInvalidFrames ht, Option.filter_eq_some_iff]

/-- Exactly the valid frames are kept, unchanged. -/
theorem frames_filterInvalidFrames (ht : t.Valid) :
    (t.filterInvalidFrames valid).frames.Perm
      (t.frames.filter fun f => valid f.callee f.port f.kind) := by
  have hnodup := nodup_frames (valid_filterInvalidFrames ht valid)
  refine (List.perm_ext_iff_of_nodup hnodup ((nodup_frames ht).filter _)).2 fun f => ?_
  rw [mem_frames_filterInvalidFrames ht, List.mem_filter]

theorem mem_kinds_filterInvalidFrames (ht : t.Valid) {kind : Kind} :
    kind ∈ (t.filterInvalidFrames valid).kinds ↔
      ∃ f ∈ t.frames, f.kind = kind ∧ valid f.callee f.port f.kind := by
  rw [mem_kinds_iff_exists_mem_frames (valid_filterInvalidFrames ht valid)]
  simp only [mem_frames_filterInvalidFrames ht, and_assoc, and_comm (a := valid _ _ _ = true)]

end FilterInvalidFrames

/-- Structural transformations may be carried out before or after taint is joined, and keep the
order of taint. The validity filter keeps exactly the frames that are valid, and the kinds of
these. -/
theorem structural_respectsJoin (ha : a.Valid) (hb : b.Valid) :
    (∀ element p, RespectsJoin (appendPort element p) a b) ∧
      (∀ position, RespectsJoin (addLocalPosition position) a b) ∧
      (∀ positions, RespectsJoin (setLocalPositions positions) a b) ∧
      (∀ valid, RespectsJoin (filterInvalidFrames valid) a b) ∧
      (∀ mapKind, RespectsJoin (transformKinds mapKind fun _ => .bottom) a b) ∧
      ∀ valid,
        (a.filterInvalidFrames valid).frames.Perm
          (a.frames.filter fun f => valid f.callee f.port f.kind) ∧
        ∀ kind, kind ∈ (a.filterInvalidFrames valid).kinds ↔
          ∃ f ∈ a.frames, f.kind = kind ∧ valid f.callee f.port f.kind := by
  refine ⟨fun element p => ?_, fun position => ?_, fun positions => ?_, fun valid => ?_,
    fun mapKind => ?_, fun valid => ?_⟩
  · exact respectsJoin_of_expand (additive_portChange element p)
      (fun t ht => appendPort_eq_expand ht element p) ha hb
  · exact respectsJoin_map (Frame.isHom_addLocalPosition position) (fun _ => rfl) ha hb
  · exact respectsJoin_map (Frame.isHom_setLocalPositions positions) (fun _ => rfl) ha hb
  · exact respectsJoin_of_expand additive_keepValid
      (fun t ht => filterInvalidFrames_eq_expand ht) ha hb
  · exact respectsJoin_of_expand (additive_withKinds mapKind)
      (fun t ht => transformKinds_bottom_eq_expand ht mapKind) ha hb
  · exact ⟨frames_filterInvalidFrames ha, fun kind => mem_kinds_filterInvalidFrames ha⟩

/-- A port of three fields and one of four fall together when a field is appended to both. -/
theorem structural_respectsJoin_of_truncated_ports :
    let field : PathElement := ⟨"next"⟩
    let short : Frame := .declared ⟨"A"⟩ ⟨.result, [field, field, field]⟩
    let deep : Frame :=
      { Frame.declared ⟨"A"⟩ ⟨.result, [field, field, field, field]⟩ with distance := 2 }
    let a := ofList [short, .declared ⟨"B"⟩ (.ofRoot .leaf)]
    let b := ofList [deep]
    a.Valid ∧ b.Valid ∧ (a.join b).frames.length = 3 ∧
      RespectsJoin (appendPort field fun _ => true) a b ∧
      ((a.join b).appendPort field fun _ => true).frames.length = 2 ∧
      RespectsJoin (transformKinds (fun _ => [⟨"C"⟩]) fun _ => .bottom) a b ∧
      ⟨"B"⟩ ∉ (a.filterInvalidFrames fun _ port _ => port.root = .result).kinds := by
  intro field short deep a b
  have ha : a.Valid := valid_ofList _
  have hb : b.Valid := valid_ofList _
  obtain ⟨happend, -, -, -, hkinds, hfilter⟩ := structural_respectsJoin ha hb
  refine ⟨ha, hb, by decide, happend field _, by decide, hkinds _, ?_⟩
  rw [(hfilter _).2]
  decide

end Taint
end TaintFlow
