import TaintFlow.Proofs.Feature.WellFormed
import TaintFlow.Proofs.Summary.CanonicalForm
import TaintFlow.Proofs.Summary.Written

/-!
# Features of loaded taint

Features are loaded as they are written, and nothing keeps a document from listing an always-feature
that it does not list as a may-feature. Such features contradict themselves: they are called empty
although a feature holds, and their meet with themselves is bottom. Taint is free of them exactly
when under each kind and key every feature that all known paths are said to have always may hold on
one of them, and that is also what it takes for the taint to be its own meet.
-/
namespace TaintFlow

theorem Json.Readable.keysAscend {j : Json} (h : j.Readable) : j.KeysAscend := by
  cases h with
  | object hkeys _ => exact hkeys
  | _ => trivial

namespace MayAlways

variable {m : MayAlways} {ms : List MayAlways}

/-- Features whose meet with themselves is not below them contradict themselves. -/
theorem leq_meet_self_iff : m.leq (m.meet m) ↔ m.WellFormed := by
  refine ⟨fun h => ?_, fun h => leq_meet h (leq_refl m) (leq_refl m)⟩
  cases m with
  | bottom => exact trivial
  | sets may always =>
    simp only [meet] at h
    split at h
    · rename_i hconsistent
      rw [SortedSet.isSubset_iff] at hconsistent
      intro x hx
      exact (SortedSet.mem_inter.1 (hconsistent x (SortedSet.mem_union.2 (.inl hx)))).1
    · cases h

theorem joinAll_cons (m : MayAlways) (ms : List MayAlways) :
    joinAll (m :: ms) = ms.foldl join m := by
  cases m <;> rfl

theorem not_mem_of_isEmpty (hm : m.WellFormed) (h : m.isEmpty) (x : Feature) :
    x ∉ m.may ∧ x ∉ m.always :=
  ⟨not_mem_may_of_isEmpty h, fun hx => not_mem_may_of_isEmpty h (wellFormed_iff.1 hm x hx)⟩

end MayAlways

namespace Frame

variable {f : Frame}

theorem leq_meet_self_iff : f.leq (f.meet f) ↔ f.WellFormed := by
  refine ⟨fun h => ?_, fun h => leq_meet h (leq_refl f) (leq_refl f)⟩
  obtain ⟨-, -, -, hinferred, hlocally, -⟩ := leq_iff.1 h
  exact ⟨MayAlways.leq_meet_self_iff.1 hinferred, MayAlways.leq_meet_self_iff.1 hlocally⟩

theorem key_meet_self (f : Frame) : (f.meet f).key = f.key :=
  key_meet (not_losesNames rfl (leq_refl f) (leq_refl f))

/-- Features that frames hold and that are joined with them. -/
theorem foldl_join_held {held : Frame → MayAlways}
    (hheld : ∀ a b, held (join a b) = (held a).join (held b)) (f : Frame) (fs : List Frame) :
    held (fs.foldl join f) = MayAlways.joinAll ((f :: fs).map held) := by
  rw [List.map_cons, MayAlways.joinAll_cons]
  induction fs generalizing f with
  | nil => rfl
  | cons g fs ih => rw [List.foldl_cons, ih, hheld, List.map_cons, List.foldl_cons]

theorem features_of_gathered {fs : List Frame} (h : fs.foldl Grouped.gather none = some f) :
    f.inferred = MayAlways.joinAll (fs.map inferred) ∧
      f.locallyInferred = MayAlways.joinAll (fs.map locallyInferred) := by
  cases fs with
  | nil => cases h
  | cons g fs =>
    rw [List.foldl_cons, Grouped.gather, Option.elim_none, Grouped.foldl_gather_some] at h
    cases h
    exact ⟨foldl_join_held (fun _ _ => rfl) g fs, foldl_join_held (fun _ _ => rfl) g fs⟩

end Frame

namespace Taint

variable {t : Taint}

/-- Taint is its own meet exactly when its features are well formed. -/
theorem meet_self_iff (ht : t.Valid) : (t.meet t).equals t ↔ t.WellFormed := by
  refine (joinLaws.equals_iff (valid_meet ht ht) ht).trans ⟨fun h f hf => ?_, fun h => ?_⟩
  · -- Meeting each frame with itself where it stands gives taint above the meet.
    let met := t.map fun f => f.meet f
    have hmet : met.Valid := valid_map ht fun _ => rfl
    have hget (kind : Kind) (key : FrameKey) :
        met.frame? kind key = (t.frame? kind key).map fun f => f.meet f :=
      frame?_map ht (fun _ => rfl) Frame.key_meet_self
    have hle : (t.meet t).leq met := by
      refine (meet_leq_iff_covers ht ht hmet).2 fun kind key f g hf hg => ?_
      cases hf.symm.trans hg
      obtain ⟨rfl, rfl⟩ := key_of_frame? ht hf
      have hfound : met.frame? (f.meet f).kind (f.meet f).key = some (f.meet f) := by
        rw [Frame.key_meet_self, hget]
        exact congrArg _ hf
      rw [Covers, hfound]
      exact Grouped.below_some.2 (Frame.leq_refl _)
    rw [h, leq_iff_frame? ht hmet] at hle
    have hf' := (mem_frames_iff ht).1 hf
    obtain ⟨g, hg, hfg⟩ := hle _ _ f hf'
    rw [hget, hf'] at hg
    cases hg
    exact Frame.leq_meet_self_iff.1 hfg
  · exact meet_eq_left ht ht h (joinLaws.leq_refl ht)

/-- The frames with a kind and a key have consistent features in both places. -/
def ConsistentAt (fs : List Frame) (kind : Kind) (key : FrameKey) : Prop :=
  MayAlways.Consistent ((fs.filter (StandsAt kind key)).map Frame.inferred) ∧
    MayAlways.Consistent ((fs.filter (StandsAt kind key)).map Frame.locallyInferred)

theorem wellFormed_ofList_iff (fs : List Frame) :
    (ofList fs).WellFormed ↔ ∀ kind key, ConsistentAt fs kind key := by
  have hvalid := valid_ofList fs
  have hjoined {kind : Kind} {key : FrameKey} {f : Frame}
      (hf : (ofList fs).frame? kind key = some f) : f.WellFormed ↔ ConsistentAt fs kind key := by
    rw [frame?_ofList] at hf
    obtain ⟨hinferred, hlocally⟩ := Frame.features_of_gathered hf
    rw [Frame.WellFormed, hinferred, hlocally, MayAlways.wellFormed_joinAll_iff,
      MayAlways.wellFormed_joinAll_iff]
    rfl
  constructor
  · intro h kind key
    cases hf : (ofList fs).frame? kind key with
    | some f => exact (hjoined hf).1 (h f (mem_frames_of_frame? hvalid hf))
    | none =>
      have hnone : fs.filter (StandsAt kind key) = [] := by
        rw [frame?_ofList, ← Option.not_isSome_iff_eq_none, Grouped.foldl_gather_isSome] at hf
        simpa using hf
      simp [ConsistentAt, hnone, MayAlways.Consistent, MayAlways.Certain, MayAlways.Known]
  · intro h f hf
    exact (hjoined ((mem_frames_iff hvalid).1 hf)).2 (h f.kind f.key)

/-- Features of loaded frames are those that are written. The loaded taint is its own meet exactly
when the features written for each kind and key are consistent, and then no features that are called
empty hold anything. -/
theorem ofJson_wellFormed_iff {items : List Json} (hkeys : ∀ item ∈ items, item.KeysAscend)
    {before : Registry} (h : ((ofJson (.array items)).run before).1 = .ok t) :
    ∃ fs : List Frame,
      List.Forall₂ (fun item f =>
        (∀ registry : Registry, ((Frame.ofJson item).run registry).1 = .ok f) ∧
          f.inferred = (item.field "inferred_features").features ∧
          f.locallyInferred = (item.field "locally_inferred_features").features) items fs ∧
      (t.WellFormed ↔ ∀ kind key, ConsistentAt fs kind key) ∧
      ((t.meet t).equals t ↔ t.WellFormed) ∧
      (t.WellFormed → ∀ f ∈ t.frames, ∀ x,
        (f.inferred.isEmpty → x ∉ f.inferred.may ∧ x ∉ f.inferred.always) ∧
          (f.locallyInferred.isEmpty →
            x ∉ f.locallyInferred.may ∧ x ∉ f.locallyInferred.always)) := by
  have hread : Reading.Succeeds (ofList <$> items.mapM Frame.ofJson) t := ⟨before, h⟩
  obtain ⟨fs, hfs, rfl⟩ := hread.of_map
  refine ⟨fs, ?_, wellFormed_ofList_iff fs, meet_self_iff (valid_ofList fs), ?_⟩
  · have hitems := (List.forall₂_and_left _ _).2 ⟨hkeys, hfs.of_mapM⟩
    refine hitems.imp fun item f hitem => ?_
    exact ⟨(Reading.notes_frame item).answers hitem.2, Frame.features_of_ofJson hitem.1 hitem.2⟩
  · intro hwell f hf x
    exact ⟨fun hempty => MayAlways.not_mem_of_isEmpty (hwell f hf).1 hempty x,
      fun hempty => MayAlways.not_mem_of_isEmpty (hwell f hf).2 hempty x⟩

/-- Of two frames under one key the first has an always-feature that may not hold; the second says
that it may, and together they are consistent. -/
theorem ofJson_wellFormed_of_merged_frames :
    let leaf (features : MayAlways) : Frame :=
      { Frame.declared ⟨"Source"⟩ (.ofRoot .leaf) with inferred := features }
    let odd := leaf (.sets ∅ (.ofList [⟨"f"⟩]))
    let items := [odd.toJson, (leaf (.sets (.ofList [⟨"f"⟩]) ∅)).toJson]
    let t := ofList [leaf (.sets (.ofList [⟨"f"⟩]) ∅)]
    (∀ item ∈ items, item.KeysAscend) ∧ ((ofJson (.array items)).run .empty).1 = .ok t ∧
      ¬ odd.WellFormed ∧ t.WellFormed ∧ (t.meet t).equals t ∧
      odd.inferred = (odd.toJson.field "inferred_features").features := by
  intro leaf odd items t
  have hkeys : ∀ item ∈ items, item.KeysAscend := List.forall_mem_cons.2
    ⟨odd.readable_toJson.keysAscend,
      List.forall_mem_singleton.2 (leaf _).readable_toJson.keysAscend⟩
  have hmerged : ofList [odd, leaf (.sets (.ofList [⟨"f"⟩]) ∅)] = t := by decide
  have hread : ((ofJson (.array items)).run .empty).1 = .ok t := hmerged ▸
    answers_ofJson_array (Reading.answers_mapM (.cons odd.answers_ofJson_toJson
      (.cons (leaf _).answers_ofJson_toJson .nil))) .empty
  have hodd : ¬ odd.WellFormed := by decide
  have hwell : t.WellFormed := by decide
  obtain ⟨fs, hfs, -, hmeet, -⟩ := ofJson_wellFormed_iff hkeys hread
  obtain ⟨f, _, ⟨hfirst, hinferred, -⟩, -, -⟩ := List.forall₂_cons_left_iff.1 hfs
  cases (hfirst .empty).symm.trans (odd.answers_ofJson_toJson .empty)
  exact ⟨hkeys, hread, hodd, hwell, hmeet.2 hwell, hinferred⟩

/-- An always-feature that may not hold is loaded, is not counted as a feature, and is lost when the
taint meets itself. -/
theorem ofJson_not_wellFormed :
    let item : Json := .object [("callee_port", .string "Leaf"), ("distance", .integer 0),
      ("inferred_features", .object [("always", .array [.string "f"]), ("may", .array [])]),
      ("kind", .string "Source")]
    let f : Frame := { Frame.declared ⟨"Source"⟩ (.ofRoot .leaf) with
      inferred := .sets ∅ (.ofList [⟨"f"⟩]) }
    let t := ofList [f]
    item.KeysAscend ∧ ((Frame.ofJson item).run .empty).1 = .ok f ∧
      ((ofJson (.array [item])).run .empty).1 = .ok t ∧ ¬ f.WellFormed ∧
      (t.meet t).equals t = false ∧ f.inferred.isEmpty ∧ ⟨"f"⟩ ∈ f.inferred.always := by
  intro item f t
  have hwritten : f.toJson = item := rfl
  have hkeys : item.KeysAscend := hwritten ▸ f.readable_toJson.keysAscend
  have hframe : Reading.Answers (Frame.ofJson item) (.ok f) := hwritten ▸ f.answers_ofJson_toJson
  have htaint : Reading.Answers (ofJson (.array [item])) (.ok t) :=
    answers_ofJson_array (Reading.answers_mapM (.cons hframe .nil))
  have hcontradicts : ¬ f.WellFormed := by decide
  have hmeet : (t.meet t).equals t = false := by decide
  have hheld : ⟨"f"⟩ ∈ f.inferred.always := by decide
  exact ⟨hkeys, hframe .empty, htaint .empty, hcontradicts, hmeet, rfl, hheld⟩

end Taint
end TaintFlow
