import Mathlib.Data.List.Perm.Basic
import TaintFlow.Proofs.Order.Frames
import TaintFlow.Proofs.Propagation.Order

/-!
# Taint that crosses in pieces

The frames of one kind are merged behind a call, but the merged frame is the least one that is above
what each frame gives by itself: it is as near as the nearest of them, and it joins what they hold.
So frames cross one by one, and taint may cross in pieces that are joined behind the call, in any
order and however it is split. The features of the call instruction are the exception. Composed with
those of a piece they tell of a path also where the frames of the piece tell of none, so with such
features the frames of one kind have to stay together.
-/
namespace TaintFlow
open MayAlways (joinAll)

namespace Frame

variable {site : CallSite} {constants : List (Option String)} {kind : Kind} {fs : List Frame}

/-- What a frame gives behind the call when it crosses alone. -/
def cross? (site : CallSite) (f : Frame) : Option Frame :=
  if f.isProducerDeclaration then f.crossProducer? site
  else merge? f.kind [f] site site.constants

/-- What is reported when the frame crosses. -/
def reports (site : CallSite) (f : Frame) : List Diagnostic :=
  if f.isProducerDeclaration then f.producerAnomalies site else f.anomalies site

theorem merge?_singleton (f : Frame) : merge? kind [f] site constants =
    if f.crosses site then
      some (atCall kind site.port site (f.distance + 1) ∅ (f.contribution site constants) [f])
    else none := by
  rw [merge?_eq]
  cases hcross : f.crosses site with
  | false => simp [hcross]
  | true => simp [hcross, MayAlways.joinAll_singleton]

/-- Frames that all cross are merged to the least frame above what each of them gives. -/
theorem merged_leq_iff (hcross : ∀ f ∈ fs, f.crosses site) {near : UInt32}
    (hnear : (fs.map distance).min? = some near) {c : Frame} :
    (atCall kind site.port site (near + 1) ∅
        (joinAll (fs.map (·.contribution site constants))) fs).leq c ↔
      ∀ f ∈ fs, (atCall kind site.port site (f.distance + 1) ∅
        (f.contribution site constants) [f]).leq c := by
  obtain ⟨hmem, hleast⟩ := List.min?_eq_some_iff.1 hnear
  obtain ⟨f₀, hf₀, rfl⟩ := List.mem_map.1 hmem
  have hdistance : c.distance ≤ f₀.distance + 1 ↔ ∀ f ∈ fs, c.distance ≤ f.distance + 1 := by
    refine ⟨fun h f hf => UInt32.le_trans h ?_, fun h => h f₀ hf₀⟩
    exact distance_add_one_le (hcross f hf) (hleast _ (List.mem_map_of_mem hf))
  simp only [atCall_leq_iff, hdistance, MayAlways.joinAll_leq_iff, List.forall_mem_map,
    List.forall_mem_singleton]
  constructor
  · intro hall f hf
    obtain ⟨hd, ho, hfo, hi, hn⟩ := hall
    exact ⟨hd f hf, ho f hf, hfo f hf, hi f hf, hn⟩
  · intro hall
    exact ⟨fun f hf => (hall f hf).1, fun f hf => (hall f hf).2.1, fun f hf => (hall f hf).2.2.1,
      fun f hf => (hall f hf).2.2.2.1, (hall f₀ hf₀).2.2.2.2⟩

/-- The same of frames of which some may not cross. -/
theorem below_merge?_iff {above : Option Frame} :
    Grouped.Below (merge? kind fs site constants) above ↔
      ∀ f ∈ fs, Grouped.Below (merge? kind [f] site constants) above := by
  have hsingle (f : Frame) : Grouped.Below (merge? kind [f] site constants) above ↔
      (f.crosses site → Grouped.Below (some (atCall kind site.port site (f.distance + 1) ∅
        (f.contribution site constants) [f])) above) := by
    rw [merge?_singleton]
    cases f.crosses site <;> simp [Grouped.Below]
  have hcrossing : (∀ f ∈ fs, Grouped.Below (merge? kind [f] site constants) above) ↔
      ∀ f ∈ fs.filter (·.crosses site), Grouped.Below (some (atCall kind site.port site
        (f.distance + 1) ∅ (f.contribution site constants) [f])) above := by
    simp only [List.mem_filter, and_imp]
    exact forall₂_congr fun f _ => hsingle f
  rw [hcrossing, merge?_eq]
  have hcross : ∀ f ∈ fs.filter (·.crosses site), f.crosses site := fun f hf =>
    (List.mem_filter.1 hf).2
  generalize fs.filter (·.crosses site) = crossing at hcross
  cases hnear : (crossing.map distance).min? with
  | none =>
      rw [List.min?_eq_none_iff, List.map_eq_nil_iff] at hnear
      simp [hnear, Grouped.Below]
  | some near =>
      rw [Option.map_some]
      cases above with
      | none =>
          have hne : crossing ≠ [] := by
            intro hnil
            rw [hnil] at hnear
            cases hnear
          obtain ⟨f, hf⟩ := List.exists_mem_of_ne_nil crossing hne
          exact iff_of_false Grouped.not_below_none fun h => Grouped.not_below_none (h f hf)
      | some c =>
          simp only [Grouped.below_some]
          exact merged_leq_iff hcross hnear

/-- The order in which frames are merged, and how often each of them is met, leave no trace. -/
theorem merge?_congr {gs : List Frame} (hmem : ∀ f, f ∈ fs ↔ f ∈ gs) :
    merge? kind fs site constants = merge? kind gs site constants := by
  have hbelow {above : Option Frame} : Grouped.Below (merge? kind fs site constants) above ↔
      Grouped.Below (merge? kind gs site constants) above := by
    rw [below_merge?_iff, below_merge?_iff]
    exact forall_congr' fun f => by rw [hmem]
  have hrefl (merged : Option Frame) : Grouped.Below merged merged := fun f hf =>
    ⟨f, hf, leq_refl f⟩
  have hle := hbelow.2 (hrefl (merge? kind gs site constants))
  have hge := hbelow.1 (hrefl (merge? kind fs site constants))
  have hantisymm {f g : Frame} (hf : merge? kind fs site constants = some f)
      (hg : merge? kind gs site constants = some g) : f = g := by
    rw [hf, hg, Grouped.below_some] at hle hge
    have hkind : f.kind = g.kind := (kind_of_merge? hf).trans (kind_of_merge? hg).symm
    have hkey := (key_of_merge? hf).trans (key_of_merge? hg).symm
    exact leq_antisymm hkind hkey hle hge
  apply Option.ext
  intro f
  constructor
  · intro hf
    obtain ⟨g, hg, -⟩ := hle f hf
    rw [hantisymm hf hg, hg]
  · intro hg
    obtain ⟨f', hf, -⟩ := hge f hg
    rw [← hantisymm hf hg, hf]

end Frame

namespace Context

variable {c : Context} {ds es : List Diagnostic}

theorem report_nil : c.report [] = c := by
  unfold report
  split
  · rw [List.append_nil]
  · rfl

theorem report_report : (c.report ds).report es = c.report (ds ++ es) := by
  unfold report
  cases hcollect : c.config.collectDiagnostics with
  | true => simp [hcollect]
  | false => simp [hcollect]

end Context

namespace Taint

variable {t u a b : Taint} {site : CallSite} {extra : MayAlways}

theorem forall_covers_merge?_iff {kind : Kind} {fs : List Frame}
    {constants : List (Option String)} :
    (∀ g, Frame.merge? kind fs site constants = some g → u.Covers g) ↔
      Grouped.Below (Frame.merge? kind fs site constants) (u.frame? kind (.ordinaryAt site)) := by
  rw [Frame.merge?_eq]
  cases ((fs.filter (·.crosses site)).map Frame.distance).min? with
  | none => simp [Grouped.Below]
  | some near =>
      simp only [Option.map_some, Option.some.injEq, forall_eq', Covers]
      rfl

/-- A taint covers what is behind the call exactly when it covers what each frame gives. -/
theorem forall_covers_propagate_iff {s : FrameSet} (hs : s.Valid) (hu : u.Valid) :
    (∀ g ∈ (s.propagate site).toList, u.Covers g) ↔
      ∀ f ∈ s.toList, ∀ g, f.cross? site = some g → u.Covers g := by
  have hproducers : (∀ g ∈ s.producers.filterMap (·.crossProducer? site), u.Covers g) ↔
      ∀ f ∈ s.toList, f.isProducerDeclaration →
        ∀ g, f.cross? site = some g → u.Covers g := by
    simp only [List.forall_mem_filterMap, FrameSet.producers, List.mem_filter, and_imp]
    refine forall₃_congr fun f _ hdeclared => ?_
    rw [Frame.cross?, if_pos hdeclared]
  have hordinary :
      (∀ g ∈ (Frame.merge? s.kind s.ordinary site site.constants).toList, u.Covers g) ↔
        ∀ f ∈ s.toList, f.isProducerDeclaration = false →
          ∀ g, f.cross? site = some g → u.Covers g := by
    simp only [Option.mem_toList]
    rw [forall_covers_merge?_iff, Frame.below_merge?_iff]
    simp only [FrameSet.ordinary, List.mem_filter, Bool.not_eq_true', and_imp]
    refine forall₃_congr fun f hf hdeclared => ?_
    have hcross : f.cross? site = Frame.merge? s.kind [f] site site.constants := by
      rw [Frame.cross?, if_neg (Bool.not_eq_true _ ▸ hdeclared), hs.2 f hf]
    rw [hcross, forall_covers_merge?_iff]
  refine (forall_covers_ofList_iff hu (FrameSet.kind_of_mem_crossed hs)).trans ?_
  rw [List.forall_mem_append, hproducers, hordinary]
  constructor
  · intro hboth f hf
    obtain ⟨hproducer, hother⟩ := hboth
    cases hdeclared : f.isProducerDeclaration with
    | true => exact hproducer f hf hdeclared
    | false => exact hother f hf hdeclared
  · intro hall
    exact ⟨fun f hf _ => hall f hf, fun f hf _ => hall f hf⟩

/-- What is behind a call is the least taint that covers what is behind it of each kind. -/
theorem propagated_leq_iff_sets (ht : t.Valid) (hu : u.Valid) :
    (t.propagated site extra).leq u ↔
      ∀ s ∈ t.sets.elements, ∀ g ∈ (s.propagateWith extra site).toList, u.Covers g := by
  have hsets : ∀ s ∈ t.sets.elements.map (·.propagateWith extra site), s.Valid := by
    intro s hs
    obtain ⟨s', hs', rfl⟩ := List.mem_map.1 hs
    exact FrameSet.valid_propagateWith (ht.2 s' hs') site extra
  refine (collected_leq_iff hsets hu).trans ?_
  rw [List.forall_mem_map]

/-- Behind a call whose instruction has no features, it is the least taint that covers what each
frame gives by itself. -/
theorem propagated_leq_iff_cross (ht : t.Valid) (hu : u.Valid) (hextra : extra.isEmpty) :
    (t.propagated site extra).leq u ↔
      ∀ f ∈ t.frames, ∀ g, f.cross? site = some g → u.Covers g := by
  have hset s (hs : s ∈ t.sets.elements) :
      (∀ g ∈ (s.propagateWith extra site).toList, u.Covers g) ↔
        ∀ f ∈ s.toList, ∀ g, f.cross? site = some g → u.Covers g := by
    rw [FrameSet.propagateWith, if_pos hextra]
    exact forall_covers_propagate_iff (ht.2 s hs) hu
  rw [propagated_leq_iff_sets ht hu]
  simp only [mem_frames]
  constructor
  · intro hall f hf
    obtain ⟨s, hs, hf⟩ := hf
    exact (hset s hs).1 (hall s hs) f hf
  · intro hall s hs
    exact (hset s hs).2 fun f hf => hall f ⟨s, hs, hf⟩

/-- What is reported of taint is what is reported of its frames. -/
theorem anomalies_perm (t : Taint) (site : CallSite) :
    (t.anomalies site).Perm (t.frames.flatMap (·.reports site)) := by
  rw [anomalies, frames, List.flatMap_assoc]
  refine List.Perm.flatMap_left _ fun s _ => ?_
  have hproducers : s.producers.flatMap (·.producerAnomalies site) =
      s.producers.flatMap (·.reports site) := by
    refine List.flatMap_congr fun f hf => ?_
    rw [Frame.reports, if_pos (List.mem_filter.1 hf).2]
  have hordinary : s.ordinary.flatMap (·.anomalies site) = s.ordinary.flatMap (·.reports site) := by
    refine List.flatMap_congr fun f hf => ?_
    rw [Frame.reports, if_neg (by simpa using (List.mem_filter.1 hf).2)]
  rw [FrameSet.anomalies, hproducers, hordinary, ← List.flatMap_append]
  exact (List.filter_append_perm _ s.toList).flatMap_right _

section Join

variable (ha : a.Valid) (hb : b.Valid)
include ha hb

/-- Taint may cross in two pieces, if the instruction has no features or the pieces have no kind in
common. -/
theorem propagated_join
    (hdisjoint : a.DisjointFrames b ∧ extra.isEmpty ∨ a.DisjointKinds b) :
    (a.join b).propagated site extra =
      (a.propagated site extra).join (b.propagated site extra) := by
  have hab : (a.join b).Valid := joinLaws.join_mem ha hb
  have hpa := valid_propagated ha site extra
  have hpb := valid_propagated hb site extra
  refine joinLaws.eq_of_forall_leq_iff (valid_propagated hab site extra)
    (joinLaws.join_mem hpa hpb) fun u hu => ?_
  refine Iff.trans ?_ (joinLaws.join_leq_iff hpa hpb hu).symm
  rcases hdisjoint with ⟨hframes, hextra⟩ | hkinds
  · refine (propagated_leq_iff_cross hab hu hextra).trans ?_
    refine Iff.trans ?_ (and_congr (propagated_leq_iff_cross ha hu hextra)
      (propagated_leq_iff_cross hb hu hextra)).symm
    simp only [mem_frames_join ha hb hframes, or_imp, forall_and]
  · have hsets s : s ∈ (a.join b).sets.elements ↔ s ∈ a.sets.elements ∨ s ∈ b.sets.elements :=
      Grouped.Valid.mem_elements_join hb.1 (hkinds.get?_eq_none ha hb)
    refine (propagated_leq_iff_sets hab hu).trans ?_
    refine Iff.trans ?_ (and_congr (propagated_leq_iff_sets ha hu)
      (propagated_leq_iff_sets hb hu)).symm
    simp only [hsets, or_imp, forall_and]

theorem anomalies_join_perm (hframes : a.DisjointFrames b) :
    ((a.join b).anomalies site).Perm (a.anomalies site ++ b.anomalies site) := by
  have hboth : ((a.join b).frames.flatMap (·.reports site)).Perm
      (a.frames.flatMap (·.reports site) ++ b.frames.flatMap (·.reports site)) := by
    rw [← List.flatMap_append]
    exact (frames_join_perm ha hb hframes).flatMap_right _
  refine (anomalies_perm (a.join b) site).trans (hboth.trans ?_)
  exact (anomalies_perm a site).symm.append (anomalies_perm b site).symm

end Join

/-- Propagate pieces one after the other, and join what is behind the call to what is there already.
A fault ends the run. -/
def propagateEach (site : CallSite) (extra : MayAlways) :
    List Taint → Taint → Context → Except Fault Taint × Context
  | [], acc, c => (.ok acc, c)
  | t :: ts, acc, c =>
    match t.propagate site extra c with
    | (.ok p, c) => propagateEach site extra ts (acc.join p) c
    | (.error fault, c) => (.error fault, c)

theorem propagateEach_of_valid {ts : List Taint} (hts : ∀ t ∈ ts, t.Valid) (acc : Taint)
    (c : Context) : propagateEach site extra ts acc c =
      (.ok ((ts.map (·.propagated site extra)).foldl join acc),
        c.report (ts.flatMap (·.anomalies site))) := by
  induction ts generalizing acc c with
  | nil =>
      rw [propagateEach, List.flatMap_nil, Context.report_nil]
      rfl
  | cons t ts ih =>
      rw [propagateEach, propagate_of_valid (hts t (by simp))]
      dsimp only
      rw [ih fun u hu => hts u (by simp [hu]), Context.report_report]
      rfl

section Partition

variable (ht : t.Valid)
include ht

/-- Each part of a taint has one of its sets and no other. -/
theorem partitionByKind_eq : t.partitionByKind.map Prod.snd = t.sets.elements.map (addFrames ∅) ∧
    ∀ s ∈ t.sets.elements, (addFrames ∅ s).sets.elements = [s] := by
  rw [partitionByKind, List.map_map]
  refine ⟨rfl, fun s hs => Grouped.elements_add_empty ?_⟩
  exact (valid_iff.1 ht).isBottom_eq_false hs

/-- The parts of a taint may cross one after the other, in any order. -/
theorem propagateEach_partitionByKind {parts : List (Kind × Taint)}
    (hparts : parts.Perm t.partitionByKind) (site : CallSite) (extra : MayAlways) :
    ∃ e, e.Perm (t.anomalies site) ∧ ∀ c, propagateEach site extra (parts.map Prod.snd) ∅ c =
      (.ok (t.propagated site extra), c.report e) := by
  obtain ⟨hsets, helements⟩ := partitionByKind_eq ht
  have hpieces : (parts.map Prod.snd).Perm (t.sets.elements.map (addFrames ∅)) :=
    hsets ▸ hparts.map Prod.snd
  generalize parts.map Prod.snd = pieces at hpieces
  have hvalid : ∀ piece ∈ pieces, piece.Valid := by
    intro piece hpiece
    obtain ⟨s, hs, rfl⟩ := List.mem_map.1 (hpieces.mem_iff.1 hpiece)
    exact valid_addFrames valid_empty (ht.2 s hs)
  have hcrossed : ∀ p ∈ pieces.map (·.propagated site extra), p.Valid :=
    List.forall_mem_map.2 fun piece hpiece => valid_propagated (hvalid piece hpiece) site extra
  have hjoined : (pieces.map (·.propagated site extra)).foldl join ∅ = t.propagated site extra := by
    refine joinLaws.eq_of_forall_leq_iff (joinLaws.foldl_join_mem valid_empty hcrossed)
      (valid_propagated ht site extra) fun u hu => ?_
    refine (joinLaws.foldl_join_leq_iff valid_empty hcrossed hu).trans ?_
    refine Iff.trans ?_ (propagated_leq_iff_sets ht hu).symm
    rw [and_iff_right (show AbstractDomain.leq (∅ : Taint) u = true from rfl)]
    simp only [List.forall_mem_map, hpieces.mem_iff]
    refine forall₂_congr fun s hs => ?_
    have hset : (addFrames ∅ s).Valid := valid_addFrames valid_empty (ht.2 s hs)
    refine (propagated_leq_iff_sets hset hu).trans ?_
    rw [helements s hs, List.forall_mem_singleton]
  have hanomalies : (t.sets.elements.map (addFrames ∅)).flatMap (·.anomalies site) =
      t.anomalies site := by
    rw [List.flatMap_map]
    refine List.flatMap_congr fun s hs => ?_
    rw [anomalies, helements s hs, List.flatMap_singleton]
  refine ⟨pieces.flatMap (·.anomalies site), ?_, fun c => ?_⟩
  · rw [← hanomalies]
    exact hpieces.flatMap_right _
  · rw [propagateEach_of_valid hvalid, hjoined]

end Partition

/-- A call may be crossed in pieces. Two pieces without a common kind and key, or without a common
kind if the call instruction has features, give the same together as one after the other, and the
same is reported of them up to order; and so do all parts of a taint, in whatever order they cross.
-/
theorem propagate_join (ha : a.Valid) (hb : b.Valid)
    (hdisjoint : a.DisjointFrames b ∧ extra.isEmpty ∨ a.DisjointKinds b) (site : CallSite) :
    ∃ pa pb p da db d,
      (∀ c, a.propagate site extra c = (.ok pa, c.report da)) ∧
      (∀ c, b.propagate site extra c = (.ok pb, c.report db)) ∧
      (∀ c, (a.join b).propagate site extra c = (.ok p, c.report d)) ∧
      p = pa.join pb ∧ d.Perm (da ++ db) ∧
      ∀ parts : List (Kind × Taint), parts.Perm a.partitionByKind → ∃ e, e.Perm da ∧
        ∀ c, propagateEach site extra (parts.map Prod.snd) ∅ c = (.ok pa, c.report e) := by
  have hab : (a.join b).Valid := joinLaws.join_mem ha hb
  have hframes : a.DisjointFrames b :=
    hdisjoint.elim And.left (DisjointKinds.disjointFrames ha hb)
  refine ⟨_, _, _, _, _, _, propagate_of_valid ha site extra, propagate_of_valid hb site extra,
    propagate_of_valid hab site extra, propagated_join ha hb hdisjoint,
    anomalies_join_perm ha hb hframes, fun parts hparts => ?_⟩
  exact propagateEach_partitionByKind ha hparts site extra

/-- Two frames of one kind at different ports may cross by themselves. -/
theorem propagate_join_of_two_ports :
    let c : Context := ⟨.ofPreset .fast, []⟩
    let a := ofList [.sample]
    let b := ofList [{ Frame.sample with port := .ofRoot (.argument 0), distance := 2 }]
    a.Valid ∧ b.Valid ∧ a.DisjointFrames b ∧ a.kinds = b.kinds ∧
      ∃ pa pb, (a.propagate .sample .bottom c).1 = .ok pa ∧
        (b.propagate .sample .bottom c).1 = .ok pb ∧
        ((a.join b).propagate .sample .bottom c).1 = .ok (pa.join pb) ∧
        pa.isEmpty = false ∧ pa ≠ pb := by
  intro c a b
  have ha : a.Valid := valid_ofList _
  have hb : b.Valid := valid_ofList _
  have hframes : a.DisjointFrames b := by
    unfold DisjointFrames
    decide
  have hextra : MayAlways.bottom.isEmpty = true := rfl
  obtain ⟨pa, pb, p, da, db, d, hpa, hpb, hp, rfl, -, -⟩ :=
    propagate_join ha hb (.inl ⟨hframes, hextra⟩) .sample
  refine ⟨ha, hb, hframes, by decide, pa, pb, ?_, ?_, ?_, ?_⟩
  · rw [hpa]
  · rw [hpb]
  · rw [hp]
  · have hleft := hpa c
    have hright := hpb c
    rw [propagate_of_valid ha] at hleft
    rw [propagate_of_valid hb] at hright
    cases hleft
    cases hright
    decide

end Taint
end TaintFlow
