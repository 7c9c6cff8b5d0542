import TaintFlow.Proofs.Order.Taint

/-!
# Meets of taint

The meet of two frames is below both of them, and the meet of two taints collects the meets of the
frames that stand under one kind and key. It is a lower bound as far as these meets stay under the
key. A meet of two frames with canonical names and none in common has no names and leaves the key:
it is filed with the frames that are not matched across artifacts, where the operands may have
nothing that it could be below.
-/
namespace TaintFlow

namespace FrameKey

/-- The key of a frame that is like those under the key, but has no canonical names. -/
def unnamed (key : FrameKey) : FrameKey := { key with isCrtex := false }

end FrameKey

namespace Frame

variable {f g : Frame}

/-- The frame has canonical names and shares none of them with the other frame. -/
def LosesNames (f g : Frame) : Prop :=
  f.isCrtex ∧ ∀ n ∈ f.canonicalNames, n ∉ g.canonicalNames

theorem isCrtex_meet : (f.meet g).isCrtex ↔ ∃ n ∈ f.canonicalNames, n ∈ g.canonicalNames := by
  rw [isCrtex_eq_true_iff]
  simp only [meet, SortedSet.mem_inter]

theorem key_meet_of_losesNames (h : f.LosesNames g) : (f.meet g).key = f.key.unnamed := by
  have hnone : (f.meet g).isCrtex = false := by
    rw [← Bool.not_eq_true, isCrtex_meet]
    intro hfound
    rcases hfound with ⟨n, hf, hg⟩
    exact h.2 n hf hg
  simp only [key, hnone]
  rfl

theorem key_meet (h : ¬ f.LosesNames g) : (f.meet g).key = f.key := by
  have hsame : (f.meet g).isCrtex = f.isCrtex := by
    rw [Bool.eq_iff_iff, isCrtex_meet]
    constructor
    · intro hfound
      rcases hfound with ⟨n, hf, -⟩
      exact isCrtex_eq_true_iff.2 ⟨n, hf⟩
    · intro hcrtex
      refine Classical.byContradiction fun hnone => h ⟨hcrtex, fun n hf hg => ?_⟩
      exact hnone ⟨n, hf, hg⟩
  simp only [key, hsame]
  rfl

end Frame

namespace FrameSet

variable {s t v : FrameSet} {kind : Kind}
variable (hs : s.Valid ∧ s.kind = kind) (ht : t.Valid ∧ t.kind = kind)
include hs ht

theorem meet_eq : s.meet t = { s with frames := s.frames.meet t.frames } :=
  if_pos (hs.2.trans ht.2.symm)

omit ht in
theorem kind_meet_of_get? {key : FrameKey} {f g : Frame} (hf : s.get? key = some f) :
    (f.meet g).kind = kind := (filed_of_kind hs key f hf).2.2

theorem meet_mem : (s.meet t).Valid ∧ (s.meet t).kind = kind := by
  rw [meet_eq hs ht]
  refine ⟨valid_iff.2 ?_, hs.2⟩
  rw [hs.2]
  exact (frameLaws kind).filed_combineShared (fun _ _ _ hf _ => kind_meet_of_get? hs hf)
    (filed_of_kind hs)

omit hs ht in
theorem covers_iff {f : Frame} :
    v.frames.Covers f ↔ ∃ c, v.get? f.key = some c ∧ f.leq c := by
  simp only [Grouped.Covers, Grouped.Below, Option.some.injEq, forall_eq']
  rfl

/-- Among the sets that are above the meet of any two frames under one key, those are above the meet
of the sets that are also above the meets that lose their names. -/
theorem meet_leq_iff (hv : v.Valid ∧ v.kind = kind)
    (habove : ∀ key f g, s.get? key = some f → t.get? key = some g →
      ∃ c, v.get? key = some c ∧ (f.meet g).leq c) :
    (s.meet t).leq v ↔ ∀ key f g, s.get? key = some f → t.get? key = some g → f.LosesNames g →
      ∃ c, v.get? key.unnamed = some c ∧ (f.meet g).leq c := by
  rw [leq_eq ((meet_mem hs ht).2.trans hv.2.symm), meet_eq hs ht]
  refine ((frameLaws kind).combineShared_leq_iff (fun _ _ _ hf _ => kind_meet_of_get? hs hf)
    (filed_of_kind hs) (filed_of_kind hv)).trans ?_
  constructor
  · intro hall key f g hf hg hlost
    have hkey : f.key = key := (filed_of_kind hs key f hf).1
    have hcov := covers_iff.1 (hall key f g hf hg rfl)
    rwa [Frame.key_meet_of_losesNames hlost, hkey] at hcov
  · intro hall key f g hf hg _
    have hkey : f.key = key := (filed_of_kind hs key f hf).1
    apply covers_iff.2
    by_cases hlost : f.LosesNames g
    · rw [Frame.key_meet_of_losesNames hlost, hkey]
      exact hall key f g hf hg hlost
    · rw [Frame.key_meet hlost, hkey]
      exact habove key f g hf hg

/-- A key is taken in the meet by a meet that stays under it, or by one that comes to it. -/
theorem isSome_get?_meet {key : FrameKey} : ((s.meet t).get? key).isSome ↔
    ∃ key' f g, s.get? key' = some f ∧ t.get? key' = some g ∧ (f.meet g).key = key := by
  rw [meet_eq hs ht]
  refine (Grouped.isSome_get?_combineShared (filed_of_kind hs)).trans ?_
  constructor
  · intro hfound
    rcases hfound with ⟨key', f, g, hf, hg, -, hkey⟩
    exact ⟨key', f, g, hf, hg, hkey⟩
  · intro hfound
    rcases hfound with ⟨key', f, g, hf, hg, hkey⟩
    exact ⟨key', f, g, hf, hg, rfl, hkey⟩

end FrameSet

namespace Taint

variable {t u v : Taint} (ht : t.Valid) (hu : u.Valid)
include ht hu

theorem get?_meet {kind : Kind} {m : FrameSet} : (t.meet u).get? kind = some m ↔
    ∃ s s', t.get? kind = some s ∧ u.get? kind = some s' ∧ s.meet s' = m ∧ m.isEmpty = false := by
  refine FrameSet.setLaws.get?_combineShared_iff (valid_iff.1 ht) fun kind s s' hs hs' => ?_
  exact FrameSet.meet_mem (valid_of_get? ht hs) (valid_of_get? hu hs')

theorem isSome_frame?_meet {kind : Kind} {key : FrameKey} :
    ((t.meet u).frame? kind key).isSome ↔ ∃ key' f g, t.frame? kind key' = some f ∧
      u.frame? kind key' = some g ∧ (f.meet g).key = key := by
  simp only [Option.isSome_iff_exists, frame?_eq_some_iff, get?_meet ht hu]
  constructor
  · intro hfound
    rcases hfound with ⟨f, m, ⟨s, s', hs, hs', rfl, -⟩, hf⟩
    obtain ⟨key', f, g, hf, hg, hkey⟩ := (FrameSet.isSome_get?_meet (valid_of_get? ht hs)
      (valid_of_get? hu hs')).1 (Option.isSome_iff_exists.2 ⟨f, hf⟩)
    exact ⟨key', f, g, ⟨s, hs, hf⟩, ⟨s', hs', hg⟩, hkey⟩
  · intro hfound
    rcases hfound with ⟨key', f, g, ⟨s, hs, hf⟩, ⟨s', hs', hg⟩, hkey⟩
    have hsome := (FrameSet.isSome_get?_meet (valid_of_get? ht hs)
      (valid_of_get? hu hs')).2 ⟨key', f, g, hf, hg, hkey⟩
    rcases Option.isSome_iff_exists.1 hsome with ⟨c, hc⟩
    refine ⟨c, _, ⟨s, s', hs, hs', rfl, ?_⟩, hc⟩
    rw [← Bool.not_eq_true]
    intro hempty
    have hnone := Grouped.isEmpty_iff.1 hempty key
    rw [show (s.meet s').frames.get? key = some c from hc] at hnone
    cases hnone

omit ht hu in
theorem narrow_eq_meet (t u : Taint) : t.narrow u = t.meet u := rfl

/-- Among the taints that are above the meet of any two frames under one key, those are above the
meet of the taints that are also above the meets that lose their names. -/
theorem meet_leq_iff (hv : v.Valid)
    (habove : ∀ kind key f g, t.frame? kind key = some f → u.frame? kind key = some g →
      ∃ c, v.frame? kind key = some c ∧ (f.meet g).leq c) :
    (t.meet u).leq v ↔ ∀ kind key f g, t.frame? kind key = some f → u.frame? kind key = some g →
      f.LosesNames g → ∃ c, v.frame? kind key.unnamed = some c ∧ (f.meet g).leq c := by
  have hset {kind s s' c} (hs : t.get? kind = some s) (hs' : u.get? kind = some s')
      (hc : v.get? kind = some c) :=
    FrameSet.meet_leq_iff (valid_of_get? ht hs) (valid_of_get? hu hs') (valid_of_get? hv hc)
      fun key f g hf hg => by
        rw [← frame?_of_get? hs] at hf
        rw [← frame?_of_get? hs'] at hg
        rw [← frame?_of_get? hc]
        exact habove kind key f g hf hg
  change (t.sets.meet u.sets).leq v.sets ↔ _
  rw [Grouped.leq_iff]
  constructor
  · intro hle kind key f g hf hg hlost
    have hmeet : ((t.meet u).frame? kind (f.meet g).key).isSome :=
      (isSome_frame?_meet ht hu).2 ⟨key, f, g, hf, hg, rfl⟩
    rcases Option.isSome_iff_exists.1 hmeet with ⟨e, he⟩
    rcases frame?_eq_some_iff.1 he with ⟨m, hm, -⟩
    obtain ⟨c, hc, hmc⟩ := hle kind m hm
    obtain ⟨s, s', hs, hs', rfl, -⟩ := (get?_meet ht hu).1 hm
    rw [frame?_of_get? hs] at hf
    rw [frame?_of_get? hs'] at hg
    rw [frame?_of_get? hc]
    exact (hset hs hs' hc).1 hmc key f g hf hg hlost
  · intro hall kind m hm
    obtain ⟨s, s', hs, hs', rfl, hne⟩ := (get?_meet ht hu).1 hm
    obtain ⟨key, e, he⟩ := FrameSet.exists_get?_of_isEmpty_eq_false hne
    obtain ⟨key', f, g, hf, hg, -⟩ := (FrameSet.isSome_get?_meet (valid_of_get? ht hs)
      (valid_of_get? hu hs')).1 (Option.isSome_iff_exists.2 ⟨e, he⟩)
    rw [← frame?_of_get? hs] at hf
    rw [← frame?_of_get? hs'] at hg
    obtain ⟨d, hd, -⟩ := habove kind key' f g hf hg
    rcases frame?_eq_some_iff.1 hd with ⟨c, hc, -⟩
    refine ⟨c, hc, (hset hs hs' hc).2 fun key f g hf hg hlost => ?_⟩
    rw [← frame?_of_get? hs] at hf
    rw [← frame?_of_get? hs'] at hg
    rw [← frame?_of_get? hc]
    exact hall kind key f g hf hg hlost

/-- When the meet of two taints is a lower bound, and when it has frames only where both operands
have some. Meets that keep their names never stand in the way. -/
theorem meet_isLowerBound_iff :
    t.narrow u = t.meet u ∧
      ((t.meet u).leq t ∧ (t.meet u).leq u ↔ ∀ kind key f g, t.frame? kind key = some f →
        u.frame? kind key = some g → f.LosesNames g →
        (∃ c, t.frame? kind key.unnamed = some c ∧ (f.meet g).leq c) ∧
        ∃ c, u.frame? kind key.unnamed = some c ∧ (f.meet g).leq c) ∧
      ((∀ kind key, ((t.meet u).frame? kind key).isSome →
          (t.frame? kind key).isSome ∧ (u.frame? kind key).isSome) ↔
        ∀ kind key f g, t.frame? kind key = some f → u.frame? kind key = some g →
          f.LosesNames g →
          (t.frame? kind key.unnamed).isSome ∧ (u.frame? kind key.unnamed).isSome) := by
  refine ⟨narrow_eq_meet t u, ?_, ?_⟩
  · rw [meet_leq_iff ht hu ht fun kind key f g hf _ => ⟨f, hf, Frame.meet_leq_left f g⟩,
      meet_leq_iff ht hu hu fun kind key f g _ hg => ⟨g, hg, Frame.meet_leq_right f g⟩]
    constructor
    · intro hbounds kind key f g hf hg hlost
      rcases hbounds with ⟨hleft, hright⟩
      exact ⟨hleft kind key f g hf hg hlost, hright kind key f g hf hg hlost⟩
    · intro hboth
      constructor
      · intro kind key f g hf hg hlost
        exact (hboth kind key f g hf hg hlost).1
      · intro kind key f g hf hg hlost
        exact (hboth kind key f g hf hg hlost).2
  · constructor
    · intro hpresent kind key f g hf hg hlost
      apply hpresent
      refine (isSome_frame?_meet ht hu).2 ⟨key, f, g, hf, hg, ?_⟩
      rw [Frame.key_meet_of_losesNames hlost, (key_of_frame? ht hf).2]
    · intro hunnamed kind key hsome
      obtain ⟨key', f, g, hf, hg, rfl⟩ := (isSome_frame?_meet ht hu).1 hsome
      by_cases hlost : f.LosesNames g
      · rw [Frame.key_meet_of_losesNames hlost, (key_of_frame? ht hf).2]
        exact hunnamed kind key' f g hf hg hlost
      · rw [Frame.key_meet hlost, (key_of_frame? ht hf).2, hf, hg]
        exact ⟨rfl, rfl⟩

end Taint

def Frame.matched (kind : Kind) (port : AccessPath) (name : String) : Frame :=
  { Frame.declared kind port with canonicalNames := .ofList [.template name] }

/-- Frames that share a name stay under their key. -/
theorem Taint.meet_isLowerBound_of_shared_name :
    let t := Taint.ofList [.matched ⟨"Source"⟩ (.ofRoot .leaf) "name"]
    t.Valid ∧ t.narrow t = t.meet t ∧ (t.meet t).leq t ∧
      ∀ kind key, ((t.meet t).frame? kind key).isSome → (t.frame? kind key).isSome := by
  intro t
  have ht : t.Valid := valid_ofList _
  rcases meet_isLowerBound_iff ht ht with ⟨hnarrow, hbound, hpresent⟩
  have hkept kind key f g (hf : t.frame? kind key = some f) (hg : t.frame? kind key = some g) :
      ¬ f.LosesNames g := by
    intro hlost
    rcases Frame.isCrtex_eq_true_iff.1 hlost.1 with ⟨n, hn⟩
    rw [hf, Option.some.injEq] at hg
    exact hlost.2 n hn (hg ▸ hn)
  refine ⟨ht, hnarrow, (hbound.2 ?_).1, fun kind key h => (hpresent.2 ?_ kind key h).1⟩
  · intro kind key f g hf hg hlost
    exact absurd hlost (hkept kind key f g hf hg)
  · intro kind key f g hf hg hlost
    exact absurd hlost (hkept kind key f g hf hg)

/-- The meet of two frames with different names is filed where neither operand has a frame. -/
theorem Taint.meet_not_leq_of_distinct_names :
    let t := Taint.ofList [.matched ⟨"Source"⟩ (.ofRoot .leaf) "name"]
    let u := Taint.ofList [.matched ⟨"Source"⟩ (.ofRoot .leaf) "other"]
    t.Valid ∧ u.Valid ∧ (t.meet u).leq t = false ∧ (t.meet u).leq u = false ∧
      (t.narrow u).leq t = false ∧ (t.meet u).frames.map Frame.isCrtex = [false] ∧
      t.frames.map Frame.isCrtex = [true] ∧ u.frames.map Frame.isCrtex = [true] :=
  ⟨valid_ofList _, valid_ofList _, by decide⟩

end TaintFlow
