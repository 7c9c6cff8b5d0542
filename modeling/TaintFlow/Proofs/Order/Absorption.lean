import TaintFlow.Proofs.Order.Frames
import TaintFlow.Proofs.Validity.Operations

/-!
# Meets and the order

A meet need not be below its operands, but nothing that is below both of them is lost in it, and it
decides the order in the same way as the join does. Frames that are below two frames share the names
of these, so the meet of the two stays under their key; only meets below which there is nothing leave
it. All this is said of taint whose features are well formed: the meet of features takes a feature
that must always hold and may not hold at all for a contradiction, and features that are not well
formed contradict themselves.
-/
namespace TaintFlow

namespace SortedSet

variable {α : Type} [Ord α] [DecidableEq α] [Std.TransOrd α] [Std.LawfulEqOrd α]

omit [Std.LawfulEqOrd α] in
theorem inter_comm (s t : SortedSet α) : s.inter t = t.inter s := by
  apply ext
  intro x
  rw [mem_inter, mem_inter, and_comm]

omit [DecidableEq α] in
theorem union_comm (s t : SortedSet α) : s.union t = t.union s := by
  apply ext
  intro x
  rw [mem_union, mem_union, or_comm]

end SortedSet

namespace MayAlways

variable {a b c : MayAlways}

instance : DecidablePred WellFormed
  | bottom => .isTrue trivial
  | sets _ _ => decidable_of_iff _ SortedSet.isSubset_iff

theorem meet_comm (a b : MayAlways) : a.meet b = b.meet a := by
  cases a with
  | bottom => cases b <;> rfl
  | sets may always =>
      cases b with
      | bottom => rfl
      | sets may' always' =>
          simp only [meet]
          rw [SortedSet.inter_comm may may', SortedSet.union_comm always always']

/-- What always holds below both operands may hold in both, so that their meet is no contradiction. -/
theorem leq_meet (hc : c.WellFormed) (hca : c.leq a) (hcb : c.leq b) : c.leq (a.meet b) := by
  cases c with
  | bottom => rfl
  | sets may always =>
      cases a with
      | bottom => cases hca
      | sets may' always' =>
          cases b with
          | bottom => cases hcb
          | sets may'' always'' =>
              rw [sets_leq_sets] at hca hcb
              have hmay : ∀ x, x ∈ may → x ∈ may'.inter may'' := fun x hx =>
                SortedSet.mem_inter.2 ⟨hca.1 x hx, hcb.1 x hx⟩
              have halways : ∀ x, x ∈ always'.union always'' → x ∈ always := by
                intro x hx
                rcases SortedSet.mem_union.1 hx with hx | hx
                · exact hca.2 x hx
                · exact hcb.2 x hx
              have hconsistent : (always'.union always'').isSubset (may'.inter may'') := by
                rw [SortedSet.isSubset_iff]
                exact fun x hx => hmay x (hc x (halways x hx))
              simp only [meet]
              rw [if_pos hconsistent, sets_leq_sets]
              exact ⟨hmay, halways⟩

end MayAlways

namespace Frame

variable {f g h : Frame}

/-- Every always-feature that was inferred is a may-feature. -/
def WellFormed (f : Frame) : Prop := f.inferred.WellFormed ∧ f.locallyInferred.WellFormed

instance : DecidablePred WellFormed := fun f =>
  inferInstanceAs (Decidable (f.inferred.WellFormed ∧ f.locallyInferred.WellFormed))

theorem distance_meet_leq (hgf : f.distance ≤ h.distance) (hgh : g.distance ≤ h.distance) :
    (f.meet g).distance ≤ h.distance := by
  change (if f.distance ≤ g.distance then g.distance else f.distance) ≤ h.distance
  split
  · exact hgh
  · exact hgf

theorem leq_meet (hh : h.WellFormed) (hf : h.leq f) (hg : h.leq g) : h.leq (f.meet g) := by
  obtain ⟨d, o, fo, i, li, u, vt, vv, lp, cn⟩ := leq_iff.1 hf
  obtain ⟨d', o', fo', i', li', u', vt', vv', lp', cn'⟩ := leq_iff.1 hg
  refine leq_iff.2 ⟨distance_meet_leq d d', ?_, ?_, MayAlways.leq_meet hh.1 i i',
    MayAlways.leq_meet hh.2 li li', ?_, ?_, ?_, ?_, ?_⟩
  all_goals
    intro x hx
    simp_all [meet]

theorem meet_comm (hkind : f.kind = g.kind) (hkey : f.key = g.key) : f.meet g = g.meet f := by
  have hdistance : max f.distance g.distance = max g.distance f.distance := by
    apply UInt32.le_antisymm
    · exact distance_meet_leq (distance_leq_meet g f).2 (distance_leq_meet g f).1
    · exact distance_meet_leq (distance_leq_meet f g).2 (distance_leq_meet f g).1
  simp only [key, FrameKey.mk.injEq] at hkey
  simp only [meet, hdistance, MayAlways.meet_comm f.inferred,
    MayAlways.meet_comm f.locallyInferred, SortedSet.inter_comm f.origins,
    SortedSet.inter_comm f.fieldOrigins, SortedSet.inter_comm f.userFeatures,
    SortedSet.inter_comm f.viaTypePorts, SortedSet.inter_comm f.viaValuePorts,
    SortedSet.inter_comm f.localPositions, SortedSet.inter_comm f.canonicalNames, hkind, hkey]

/-- Below frames that share no name there is no frame under their key. -/
theorem not_losesNames (hkey : h.key = f.key) (hf : h.leq f) (hg : h.leq g) :
    ¬ f.LosesNames g := by
  intro hlost
  have hcrtex : h.isCrtex = f.isCrtex := congrArg FrameKey.isCrtex hkey
  obtain ⟨n, hn⟩ := isCrtex_eq_true_iff.1 (hcrtex.trans hlost.1)
  have hnames := (leq_iff.1 hf).2.2.2.2.2.2.2.2.2
  have hnames' := (leq_iff.1 hg).2.2.2.2.2.2.2.2.2
  exact hlost.2 n (hnames n hn) (hnames' n hn)

/-- The meet with a larger frame is the frame itself. -/
theorem meet_eq_left (hf : f.WellFormed) (hle : f.leq g) : f.meet g = f := by
  have hkept : ¬ f.LosesNames g := not_losesNames rfl (leq_refl f) hle
  exact leq_antisymm rfl (key_meet hkept) (meet_leq_left f g) (leq_meet hf (leq_refl f) hle)

end Frame

namespace Taint

variable {t u v : Taint} {kind : Kind} {key : FrameKey} {f g : Frame}

/-- The features of all frames are well formed. -/
def WellFormed (t : Taint) : Prop := ∀ f ∈ t.frames, f.WellFormed

instance : DecidablePred WellFormed := fun t =>
  inferInstanceAs (Decidable (∀ f ∈ t.frames, f.WellFormed))

/-- A taint covers the meet of two sets when it covers the meets of their frames, wherever these come
to stand. -/
theorem forall_covers_meet_iff {s s' : FrameSet} (hs : s.Valid ∧ s.kind = kind)
    (hs' : s'.Valid ∧ s'.kind = kind) (hv : v.Valid) :
    (∀ e ∈ (s.meet s').toList, v.Covers e) ↔
      ∀ key f g, s.get? key = some f → s'.get? key = some g → v.Covers (f.meet g) := by
  have hfiled := FrameSet.filed_of_kind hs
  have hkind : ∀ e ∈ s.frames.elements.filterMap (fun f =>
      (s'.frames.get? (Grouping.groupKey f)).map (Frame.meet f)), e.kind = s.kind := by
    intro e he
    obtain ⟨key, f, g, hf, hg, rfl⟩ := (Grouped.mem_combined hfiled).1 he
    exact (FrameSet.kind_meet_of_get? hs hf).trans hs.2.symm
  rw [FrameSet.meet_eq hs hs']
  refine (forall_covers_ofList_iff hv hkind).trans ?_
  constructor
  · intro hall key f g hf hg
    exact hall _ ((Grouped.mem_combined hfiled).2 ⟨key, f, g, hf, hg, rfl⟩)
  · intro hall e he
    obtain ⟨key, f, g, hf, hg, rfl⟩ := (Grouped.mem_combined hfiled).1 he
    exact hall key f g hf hg

section Meet

variable (ht : t.Valid) (hu : u.Valid)
include ht hu

theorem meet_leq_iff_covers (hv : v.Valid) : (t.meet u).leq v ↔ ∀ kind key f g,
    t.frame? kind key = some f → u.frame? kind key = some g → v.Covers (f.meet g) := by
  have hcombined {m : FrameSet} : m ∈ t.sets.elements.filterMap (fun s =>
      (u.sets.get? (Grouping.groupKey s)).map (FrameSet.meet s)) ↔
        ∃ kind s s', t.sets.get? kind = some s ∧ u.sets.get? kind = some s' ∧ s.meet s' = m :=
    Grouped.mem_combined (valid_iff.1 ht)
  have hvalid : ∀ m ∈ t.sets.elements.filterMap (fun s =>
      (u.sets.get? (Grouping.groupKey s)).map (FrameSet.meet s)), m.Valid := by
    intro m hm
    obtain ⟨kind, s, s', hs, hs', rfl⟩ := hcombined.1 hm
    exact (FrameSet.meet_mem (valid_of_get? ht hs) (valid_of_get? hu hs')).1
  refine (collected_leq_iff hvalid hv).trans ?_
  constructor
  · intro hall kind key f g hf hg
    obtain ⟨s, hs, hf⟩ := frame?_eq_some_iff.1 hf
    obtain ⟨s', hs', hg⟩ := frame?_eq_some_iff.1 hg
    have hset := hall _ (hcombined.2 ⟨kind, s, s', hs, hs', rfl⟩)
    rw [forall_covers_meet_iff (valid_of_get? ht hs) (valid_of_get? hu hs') hv] at hset
    exact hset key f g hf hg
  · intro hall m hm
    obtain ⟨kind, s, s', hs, hs', rfl⟩ := hcombined.1 hm
    rw [forall_covers_meet_iff (valid_of_get? ht hs) (valid_of_get? hu hs') hv]
    intro key f g hf hg
    rw [← frame?_of_get? hs] at hf
    rw [← frame?_of_get? hs'] at hg
    exact hall kind key f g hf hg

theorem covers_meet (hf : t.frame? kind key = some f) (hg : u.frame? kind key = some g) :
    (t.meet u).Covers (f.meet g) := by
  have hmeet := valid_meet ht hu
  exact (meet_leq_iff_covers ht hu hmeet).1 (joinLaws.leq_refl hmeet) kind key f g hf hg

theorem leq_iff_frame? : t.leq u ↔ ∀ kind key f, t.frame? kind key = some f →
    ∃ g, u.frame? kind key = some g ∧ f.leq g := by
  rw [leq_iff_covers ht hu]
  constructor
  · intro hall kind key f hf
    obtain ⟨rfl, rfl⟩ := key_of_frame? ht hf
    exact hall f (mem_frames_of_frame? ht hf) f rfl
  · intro hall f hf
    rw [mem_frames_iff ht] at hf
    obtain ⟨g, hg, hle⟩ := hall f.kind f.key f hf
    rw [Covers, hg]
    exact Grouped.below_some.2 hle

/-- Nothing below both operands is lost in the meet. -/
theorem leq_meet (hv : v.Valid) (hwell : v.WellFormed) (hvt : v.leq t) (hvu : v.leq u) :
    v.leq (t.meet u) := by
  rw [leq_iff_covers hv (valid_meet ht hu)]
  intro h hh
  have hstand := (mem_frames_iff hv).1 hh
  obtain ⟨f, hf, hhf⟩ := (leq_iff_frame? hv ht).1 hvt _ _ h hstand
  obtain ⟨g, hg, hhg⟩ := (leq_iff_frame? hv hu).1 hvu _ _ h hstand
  obtain ⟨hkind, hkey⟩ := key_of_frame? ht hf
  have hkept := Frame.key_meet (Frame.not_losesNames hkey.symm hhf hhg)
  obtain ⟨c, hc, hle⟩ := covers_meet ht hu hf hg _ rfl
  have hplace : (f.meet g).kind = h.kind ∧ (f.meet g).key = h.key :=
    ⟨hkind, hkept.trans hkey⟩
  rw [hplace.1, hplace.2] at hc
  rw [Covers, hc]
  exact Grouped.below_some.2 (Frame.leq_trans (Frame.leq_meet (hwell h hh) hhf hhg) hle)

theorem meet_comm : t.meet u = u.meet t := by
  refine joinLaws.eq_of_forall_leq_iff (valid_meet ht hu) (valid_meet hu ht) fun v hv => ?_
  refine (meet_leq_iff_covers ht hu hv).trans (Iff.trans ?_ (meet_leq_iff_covers hu ht hv).symm)
  have hsame {kind key f g} (hf : t.frame? kind key = some f) (hg : u.frame? kind key = some g) :
      f.meet g = g.meet f := by
    obtain ⟨hkind, hkey⟩ := key_of_frame? ht hf
    obtain ⟨hkind', hkey'⟩ := key_of_frame? hu hg
    exact Frame.meet_comm (hkind.trans hkind'.symm) (hkey.trans hkey'.symm)
  constructor
  · intro hall kind key g f hg hf
    rw [← hsame hf hg]
    exact hall kind key f g hf hg
  · intro hall kind key f g hf hg
    rw [hsame hf hg]
    exact hall kind key g f hg hf

theorem meet_eq_left (hwell : t.WellFormed) (hle : t.leq u) : t.meet u = t := by
  have habove := (leq_iff_frame? ht hu).1 hle
  refine joinLaws.eq_of_forall_leq_iff (valid_meet ht hu) ht fun v hv => ?_
  refine (meet_leq_iff_covers ht hu hv).trans (Iff.trans ?_ (leq_iff_covers ht hv).symm)
  have hsame {kind key f g} (hf : t.frame? kind key = some f) (hg : u.frame? kind key = some g) :
      f.meet g = f := by
    obtain ⟨g', hg', hfg⟩ := habove kind key f hf
    obtain rfl := Option.some.inj (hg.symm.trans hg')
    exact Frame.meet_eq_left (hwell f (mem_frames_of_frame? ht hf)) hfg
  constructor
  · intro hall f hf
    rw [mem_frames_iff ht] at hf
    obtain ⟨g, hg, -⟩ := habove _ _ f hf
    rw [← hsame hf hg]
    exact hall _ _ f g hf hg
  · intro hall kind key f g hf hg
    rw [hsame hf hg]
    exact hall f (mem_frames_of_frame? ht hf)

/-- A meet that gives an operand back has lost no names: frames with names come from frames with
names only, under the same key. -/
theorem leq_of_meet_eq_left (hmeet : t.meet u = t) : t.leq u := by
  have hbound : (t.meet u).leq u := by
    rw [meet_leq_iff ht hu hu fun kind key f g _ hg => ⟨g, hg, Frame.meet_leq_right f g⟩]
    intro kind key f g hf hg hlost
    have hstands : ((t.meet u).frame? kind key).isSome := by
      rw [hmeet, hf]
      rfl
    obtain ⟨key', f', g', hf', hg', hkey⟩ := (isSome_frame?_meet ht hu).1 hstands
    have hcrtex : (f'.meet g').isCrtex := by
      have hnamed : key.isCrtex = true := (key_of_frame? ht hf).2 ▸ hlost.1
      exact (congrArg FrameKey.isCrtex hkey).trans hnamed
    have hkept : ¬ f'.LosesNames g' := by
      intro hlost'
      obtain ⟨n, hn, hn'⟩ := Frame.isCrtex_meet.1 hcrtex
      exact hlost'.2 n hn hn'
    rw [Frame.key_meet hkept, (key_of_frame? ht hf').2] at hkey
    subst hkey
    obtain rfl := Option.some.inj (hf.symm.trans hf')
    obtain rfl := Option.some.inj (hg.symm.trans hg')
    exact absurd hlost hkept
  rw [hmeet] at hbound
  exact hbound

/-- Taint that is below two others is below their meet, the meet is commutative, and narrowing is the
meet. Both the join and the meet decide the order, so taint absorbs its join with any other taint,
and narrowing it by taint below it gives that taint. -/
theorem leq_meet_and_absorption (hv : v.Valid) (hwt : t.WellFormed) (hwu : u.WellFormed)
    (hwv : v.WellFormed) :
    (v.leq t → v.leq u → v.leq (t.meet u)) ∧
      (t.meet u).equals (u.meet t) ∧
      t.narrow u = t.meet u ∧
      (t.leq u ↔ (t.join u).equals u) ∧
      (t.leq u ↔ (t.meet u).equals t) ∧
      (t.meet (t.join u)).equals t ∧
      (u.leq t → t.narrow u = u) := by
  have hjoin : (t.join u).Valid := joinLaws.join_mem ht hu
  have hmeet : (t.meet u).Valid := valid_meet ht hu
  refine ⟨leq_meet ht hu hv hwv, ?_, narrow_eq_meet t u, ?_, ?_, ?_, ?_⟩
  · exact (joinLaws.equals_iff hmeet (valid_meet hu ht)).2 (meet_comm ht hu)
  · refine Iff.trans ?_ (joinLaws.equals_iff hjoin hu).symm
    constructor
    · exact joinLaws.join_eq_right ht hu
    · intro heq
      have hleft : t.leq (t.join u) := joinLaws.leq_join_left ht hu
      exact heq ▸ hleft
  · refine Iff.trans ?_ (joinLaws.equals_iff hmeet ht).symm
    exact ⟨meet_eq_left ht hu hwt, leq_of_meet_eq_left ht hu⟩
  · refine (joinLaws.equals_iff (valid_meet ht hjoin) ht).2 ?_
    exact meet_eq_left ht hjoin hwt (joinLaws.leq_join_left ht hu)
  · intro hle
    rw [narrow_eq_meet, meet_comm ht hu]
    exact meet_eq_left hu ht hwu hle

end Meet

/-- The meet of frames with different names is not below them, and still all laws hold of it. -/
theorem leq_meet_and_absorption_of_distinct_names :
    let named (name : String) := Frame.matched ⟨"Source"⟩ (.ofRoot .leaf) name
    let known (may always : List Feature) : Frame :=
      { Frame.declared ⟨"Source"⟩ (.ofRoot .result) with
        inferred := .sets (.ofList may) (.ofList always) }
    let t := ofList [named "name", known [⟨"f"⟩, ⟨"g"⟩] [⟨"f"⟩]]
    let u := ofList [named "other", known [⟨"f"⟩, ⟨"h"⟩] [⟨"f"⟩]]
    let v := ofList [known [⟨"f"⟩] [⟨"f"⟩]]
    t.Valid ∧ u.Valid ∧ v.Valid ∧ t.WellFormed ∧ u.WellFormed ∧ v.WellFormed ∧
      v.leq t ∧ v.leq u ∧ (t.meet u).leq t = false ∧
      v.leq (t.meet u) ∧ (t.meet u).equals (u.meet t) ∧ (t.meet u).equals t = false ∧
      t.leq u = false ∧ (t.meet (t.join u)).equals t ∧ t.narrow v = v := by
  intro named known t u v
  have ht : t.Valid := valid_ofList _
  have hu : u.Valid := valid_ofList _
  have hv : v.Valid := valid_ofList _
  have hwt : t.WellFormed := by decide
  have hwu : u.WellFormed := by decide
  have hwv : v.WellFormed := by decide
  have hvt : v.leq t := by decide
  have hvu : v.leq u := by decide
  have hnot : t.leq u = false := by decide
  obtain ⟨hbelow, hcomm, -, -, hdecides, habsorbs, -⟩ :=
    leq_meet_and_absorption ht hu hv hwt hwu hwv
  have hnarrow := (leq_meet_and_absorption ht hv hv hwt hwv hwv).2.2.2.2.2.2 hvt
  refine ⟨ht, hu, hv, hwt, hwu, hwv, hvt, hvu, by decide, hbelow hvt hvu, hcomm, ?_, hnot,
    habsorbs, hnarrow⟩
  rw [← Bool.not_eq_true, ← hdecides, hnot]
  exact Bool.false_ne_true

end Taint
end TaintFlow
