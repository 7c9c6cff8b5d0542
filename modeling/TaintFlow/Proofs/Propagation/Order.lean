import TaintFlow.Proofs.Order.Frames
import TaintFlow.Proofs.Propagation.Crossing
import TaintFlow.Proofs.Validity.Operations

/-!
# Propagation and the order

A larger taint is not always larger behind a call. What frames may hold, how near they are and where
they come from is larger there, but a feature that is certain of the larger taint need not be certain
of the smaller one, and canonical names that can be resolved for a frame need not be resolvable for a
larger frame. The order is kept exactly as far as neither happens.
-/
namespace TaintFlow
open MayAlways

def Frame.withExtra (extra : MayAlways) (f : Frame) : Frame :=
  { f with inferred := behind extra f.inferred }

namespace FrameSet
open FrameKey

variable {s t : FrameSet} {site : CallSite} {extra : MayAlways}

def ordinaryFeatures (s : FrameSet) (site : CallSite) : List MayAlways :=
  (s.crossingOrdinary site).map (·.contribution site site.constants)

def producerFeatures (s : FrameSet) (site : CallSite) : List MayAlways :=
  (s.crossingProducers site).map (·.contribution site [])

theorem kind_propagateWith (s : FrameSet) : (s.propagateWith extra site).kind = s.kind := by
  simp only [propagateWith]
  split <;> rfl

theorem get?_propagateWith (hs : s.Valid) (key : FrameKey) :
    (s.propagateWith extra site).get? key =
      ((s.propagate site).get? key).map (Frame.withExtra extra) := by
  unfold propagateWith
  dsimp only
  split
  · rename_i hextra
    have hsame : Frame.withExtra extra = id := by
      funext f
      rw [Frame.withExtra, behind, if_pos hextra]
      rfl
    rw [hsame, Option.map_id_fun, id]
  · rename_i hextra
    have hchange : (fun f : Frame => { f with inferred := f.inferred.compose extra }) =
        Frame.withExtra extra := by
      funext f
      rw [Frame.withExtra, behind, if_neg hextra]
    have hkind : ∀ f, (Frame.withExtra extra f).kind = f.kind := fun _ => rfl
    have hkey : ∀ f, (Frame.withExtra extra f).key = f.key := fun _ => rfl
    rw [hchange]
    exact get?_map (valid_propagate hs site) hkind hkey key

theorem get?_ordinaryAt (hs : s.Valid) :
    (s.propagateWith extra site).get? (ordinaryAt site) =
      ((s.crossingOrdinary site).map Frame.distance).min?.map fun near =>
        Frame.atCall s.kind site.port site (near + 1) ∅
          (behind extra (joinAll (s.ordinaryFeatures site))) (s.crossingOrdinary site) := by
  rw [get?_propagateWith hs, get?_propagate hs, if_neg (ordinaryAt_ne_producerAt site), if_pos rfl,
    Frame.merge?_eq, Option.map_map]
  rfl

theorem get?_producerAt (hs : s.Valid) :
    (s.propagateWith extra site).get? (producerAt site) =
      if s.crossingProducers site = [] then none
      else some (Frame.atCall s.kind (site.port.canonicalize site.callee) site 0
        (SortedSet.unionOf (·.resolvedNames site) (s.crossingProducers site))
        (behind extra (joinAll (s.producerFeatures site))) (s.crossingProducers site)) := by
  rw [get?_propagateWith hs, get?_propagate hs, if_pos rfl]
  split <;> rfl

section Larger

variable (hs : s.Valid) (ht : t.Valid) (hkind : s.kind = t.kind) (hle : s.leq t)
include hs ht hkind hle

theorem exists_above {f : Frame} (hf : f ∈ s.toList) : ∃ g ∈ t.toList, g.key = f.key ∧ f.leq g := by
  rw [leq_eq hkind, (valid_iff.1 hs).leq_iff_covers] at hle
  rcases covers_iff.1 (hle f hf) with ⟨g, hg, hfg⟩
  exact ⟨g, Grouped.mem_elements.2 ⟨_, hg⟩, (ht.1 _ g hg).1, hfg⟩

/-- A larger frame is ordinary when the smaller one is, and it crosses too. -/
theorem exists_crossingOrdinary_above {f : Frame} (hf : f ∈ s.crossingOrdinary site) :
    ∃ g ∈ t.crossingOrdinary site, g.key = f.key ∧ f.leq g := by
  rcases mem_crossingOrdinary.1 hf with ⟨hmem, hordinary, hcrosses⟩
  rcases exists_above hs ht hkind hle hmem with ⟨g, hg, hkey, hfg⟩
  rw [← Frame.isProducerDeclaration_congr hkey] at hordinary
  have hcrosses' := Frame.crosses_mono hfg hcrosses
  exact ⟨g, mem_crossingOrdinary.2 ⟨hg, hordinary, hcrosses'⟩, hkey, hfg⟩

/-- The nearest of the larger frames is at least as near. -/
theorem nearest_leq {near near' : UInt32}
    (hnear : ((s.crossingOrdinary site).map Frame.distance).min? = some near)
    (hnear' : ((t.crossingOrdinary site).map Frame.distance).min? = some near') :
    near' + 1 ≤ near + 1 := by
  rcases List.min?_eq_some_iff.1 hnear with ⟨hmem, -⟩
  rcases List.min?_eq_some_iff.1 hnear' with ⟨-, hleast⟩
  rcases List.mem_map.1 hmem with ⟨f, hf, rfl⟩
  obtain ⟨g, hg, -, hfg⟩ := exists_crossingOrdinary_above hs ht hkind hle hf
  have hnearer := UInt32.le_trans (hleast _ (List.mem_map_of_mem hg)) (Frame.leq_iff.1 hfg).1
  exact Frame.distance_add_one_le (mem_crossingOrdinary.1 hf).2.2 hnearer

/-- The ordinary frame behind the call keeps its place in the order when its certain features do. -/
theorem below_ordinaryAt_iff :
    Grouped.Below ((s.propagateWith extra site).get? (ordinaryAt site))
        ((t.propagateWith extra site).get? (ordinaryAt site)) ↔
      (s.crossingOrdinary site ≠ [] →
        CertaintyKept extra (s.ordinaryFeatures site) (t.ordinaryFeatures site)) := by
  have hcover : Frame.Covered (s.crossingOrdinary site) (t.crossingOrdinary site) := by
    intro f hf
    have hlarger := exists_crossingOrdinary_above hs ht hkind hle hf
    rcases hlarger with ⟨g, hg, -, hfg⟩
    exact ⟨g, hg, hfg⟩
  rw [get?_ordinaryAt hs, get?_ordinaryAt ht]
  cases hnear : ((s.crossingOrdinary site).map Frame.distance).min? with
  | none =>
      rw [List.min?_eq_none_iff, List.map_eq_nil_iff] at hnear
      simp [Grouped.Below, hnear]
  | some near =>
      have hsome : s.crossingOrdinary site ≠ [] := by
        intro hnil
        rw [hnil] at hnear
        cases hnear
      rcases List.exists_mem_of_ne_nil _ hsome with ⟨f, hf⟩
      cases hnear' : ((t.crossingOrdinary site).map Frame.distance).min? with
      | none =>
          rw [List.min?_eq_none_iff, List.map_eq_nil_iff] at hnear'
          obtain ⟨g, hg, -⟩ := hcover f hf
          rw [hnear'] at hg
          cases hg
      | some near' =>
          rw [Option.map_some, Option.map_some, Grouped.below_some, hkind]
          apply Frame.atCall_leq_atCall_iff.trans
          rw [behind_joinAll_leq_iff]
          constructor
          · intro hboth _
            rcases hboth with ⟨-, -, -, ⟨-, -, hcertain⟩, -⟩
            exact hcertain
          · intro hcertain
            have hdistance := nearest_leq hs ht hkind hle hnear hnear'
            have hknown : Known (s.ordinaryFeatures site) →
                extra.isEmpty = false ∨ Known (t.ordinaryFeatures site) :=
              fun h => .inr (hcover.known h)
            have hmay : ∀ m ∈ s.ordinaryFeatures site, ∀ x, x ∈ m.may →
                x ∈ extra.may ∨ ∃ n ∈ t.ordinaryFeatures site, x ∈ n.may :=
              fun m hm x hx => .inr (hcover.may m hm x hx)
            exact ⟨hdistance, hcover.origins, hcover.fieldOrigins,
              ⟨hknown, hmay, hcertain hsome⟩, fun n hn => hn⟩

end Larger

/-- What has to be kept for the producers of a larger set to stay above those of a smaller one. -/
structure ProducersKept (extra : MayAlways) (site : CallSite) (s t : FrameSet) : Prop where
  names : ∀ f ∈ s.crossingProducers site, ∀ n, n ∈ f.resolvedNames site →
    ∃ g ∈ t.crossingProducers site, n ∈ g.resolvedNames site
  origins : ∀ f ∈ s.crossingProducers site, ∀ o, o ∈ f.origins →
    ∃ g ∈ t.crossingProducers site, o ∈ g.origins
  fieldOrigins : ∀ f ∈ s.crossingProducers site, ∀ o, o ∈ f.fieldOrigins →
    ∃ g ∈ t.crossingProducers site, o ∈ g.fieldOrigins
  known : Known (s.producerFeatures site) → extra.isEmpty = false ∨ Known (t.producerFeatures site)
  may : ∀ m ∈ s.producerFeatures site, ∀ x, x ∈ m.may →
    x ∈ extra.may ∨ ∃ n ∈ t.producerFeatures site, x ∈ n.may
  certain : CertaintyKept extra (s.producerFeatures site) (t.producerFeatures site)

theorem below_producerAt_iff (hs : s.Valid) (ht : t.Valid) (hkind : s.kind = t.kind) :
    Grouped.Below ((s.propagateWith extra site).get? (producerAt site))
        ((t.propagateWith extra site).get? (producerAt site)) ↔
      (s.crossingProducers site ≠ [] → ProducersKept extra site s t) := by
  rw [get?_producerAt hs, get?_producerAt ht]
  by_cases hnone : s.crossingProducers site = []
  · simp [Grouped.Below, hnone]
  · rw [if_neg hnone]
    rcases List.exists_mem_of_ne_nil _ hnone with ⟨f, hf⟩
    by_cases hnone' : t.crossingProducers site = []
    · rw [if_pos hnone']
      constructor
      · intro hbelow
        obtain ⟨c, hc, -⟩ := hbelow _ rfl
        cases hc
      · intro hkept
        have hproduces := (mem_crossingProducers.1 hf).2.2
        rcases Frame.producesAt_iff.1 hproduces with ⟨-, n, hn⟩
        rcases (hkept hnone).names f hf n hn with ⟨g, hg, -⟩
        rw [hnone'] at hg
        cases hg
    · rw [if_neg hnone', Grouped.below_some, hkind]
      apply Frame.atCall_leq_atCall_iff.trans
      rw [behind_joinAll_leq_iff, SortedSet.unionOf_subset_iff]
      constructor
      · intro hboth _
        rcases hboth with ⟨-, horigins, hfields, ⟨hknown, hmay, hcertain⟩, hnames⟩
        exact ⟨hnames, horigins, hfields, hknown, hmay, hcertain⟩
      · intro hkept
        obtain ⟨hnames, horigins, hfields, hknown, hmay, hcertain⟩ := hkept hnone
        exact ⟨UInt32.le_refl 0, horigins, hfields, ⟨hknown, hmay, hcertain⟩, hnames⟩

/-- Nothing stands under any other key behind a call. -/
theorem propagateWith_leq_iff (hs : s.Valid) (ht : t.Valid) (hkind : s.kind = t.kind)
    (hle : s.leq t) :
    (s.propagateWith extra site).leq (t.propagateWith extra site) ↔
      (s.crossingOrdinary site ≠ [] →
        CertaintyKept extra (s.ordinaryFeatures site) (t.ordinaryFeatures site)) ∧
      (s.crossingProducers site ≠ [] → ProducersKept extra site s t) := by
  have hkinds : (s.propagateWith extra site).kind = (t.propagateWith extra site).kind := by
    rw [kind_propagateWith, kind_propagateWith, hkind]
  rw [leq_eq hkinds, Grouped.leq_iff, ← below_ordinaryAt_iff hs ht hkind hle,
    ← below_producerAt_iff hs ht hkind]
  constructor
  · intro hall
    exact ⟨hall _, hall _⟩
  · intro hboth key
    rcases hboth with ⟨hordinary, hproducer⟩
    by_cases hp : key = producerAt site
    · exact hp ▸ hproducer
    by_cases ho : key = ordinaryAt site
    · exact ho ▸ hordinary
    intro f hf
    have hnone : (s.propagateWith extra site).get? key = none := by
      rw [get?_propagateWith hs, get?_propagate hs, if_neg hp, if_neg ho, Option.map_none]
    cases hnone.symm.trans hf

/-- Producers are kept when each has a larger one that agrees with it. -/
theorem producersKept_of_agrees (hextra : extra.isEmpty)
    (hcover : ∀ f ∈ s.crossingProducers site, ∃ g ∈ t.crossingProducers site,
      f.leq g ∧ f.Agrees g) : ProducersKept extra site s t := by
  have hcovered : Frame.Covered (s.crossingProducers site) (t.crossingProducers site) := by
    intro f hf
    rcases hcover f hf with ⟨g, hg, hle, -⟩
    exact ⟨g, hg, hle⟩
  constructor
  · intro f hf n hn
    rcases hcover f hf with ⟨g, hg, hle, hagree⟩
    exact ⟨g, hg, Frame.mem_resolvedNames hle hagree hn⟩
  · exact hcovered.origins
  · exact hcovered.fieldOrigins
  · intro hknown
    exact .inr (hcovered.known hknown)
  · intro m hm x hx
    exact .inr (hcovered.may m hm x hx)
  · apply certaintyKept_of_leq hextra
    intro m hm
    rcases List.mem_map.1 hm with ⟨f, hf, rfl⟩
    rcases hcover f hf with ⟨g, hg, hle, hagree⟩
    exact ⟨_, List.mem_map_of_mem hg, Frame.contribution_leq hle hagree⟩

/-- The condition holds of sets whose frames agree in what is certain of them. -/
theorem propagateWith_leq_of_agrees (hs : s.Valid) (ht : t.Valid) (hkind : s.kind = t.kind)
    (hle : s.leq t) (hextra : extra.isEmpty)
    (hagree : ∀ key f g, s.get? key = some f → t.get? key = some g → f.Agrees g) :
    (s.propagateWith extra site).leq (t.propagateWith extra site) := by
  have hsame {f g : Frame} (hf : f ∈ s.toList) (hg : g ∈ t.toList) (hkey : g.key = f.key) :
      f.Agrees g := by
    have hget := (valid_iff.1 ht).get?_groupKey hg
    rw [show Grouping.groupKey g = f.key from hkey] at hget
    exact hagree f.key f g ((valid_iff.1 hs).get?_groupKey hf) hget
  rw [propagateWith_leq_iff hs ht hkind hle]
  constructor
  · intro _
    apply certaintyKept_of_leq hextra
    intro m hm
    rcases List.mem_map.1 hm with ⟨f, hf, rfl⟩
    obtain ⟨g, hg, hkey, hfg⟩ := exists_crossingOrdinary_above hs ht hkind hle hf
    have hagree' := hsame (mem_crossingOrdinary.1 hf).1 (mem_crossingOrdinary.1 hg).1 hkey
    exact ⟨_, List.mem_map_of_mem hg, Frame.contribution_leq hfg hagree'⟩
  · intro _
    apply producersKept_of_agrees hextra
    intro f hf
    rcases mem_crossingProducers.1 hf with ⟨hmem, hproducer, hproduces⟩
    rcases exists_above hs ht hkind hle hmem with ⟨g, hg, hkey, hfg⟩
    have hagree' := hsame hmem hg hkey
    have hproduces' := Frame.producesAt_mono hfg hagree' hproduces
    rw [← Frame.isProducerDeclaration_congr hkey] at hproducer
    exact ⟨g, mem_crossingProducers.2 ⟨hg, hproducer, hproduces'⟩, hfg, hagree'⟩

end FrameSet

namespace Taint

variable {a b : Taint} {site : CallSite} {extra : MayAlways}

/-- The kinds behind a call are those of which some frame crosses. -/
theorem get?_propagated (ha : a.Valid) {kind : Kind} {m : FrameSet} :
    (a.propagated site extra).get? kind = some m ↔
      ∃ s, a.get? kind = some s ∧ s.propagateWith extra site = m ∧ m.isEmpty = false := by
  have hget : (a.propagated site extra).get? kind =
      ((a.get? kind).map (FrameSet.propagateWith extra site)).filter (!FrameSet.isEmpty ·) := by
    refine FrameSet.setLaws.get?_map (valid_iff.1 ha) fun kind s hs => ?_
    obtain ⟨hvalid, hkind⟩ := valid_of_get? ha hs
    refine ⟨FrameSet.valid_propagateWith hvalid site extra, ?_⟩
    exact (FrameSet.kind_propagateWith s).trans hkind
  rw [hget]
  simp only [Option.filter_eq_some_iff, Option.map_eq_some_iff, Bool.not_eq_true']
  constructor
  · intro hfound
    rcases hfound with ⟨⟨s, hs, rfl⟩, hne⟩
    exact ⟨s, hs, rfl, hne⟩
  · intro hfound
    rcases hfound with ⟨s, hs, rfl, hne⟩
    exact ⟨⟨s, hs, rfl⟩, hne⟩

/-- What stands under a kind and a key behind a call stands there behind it in the set of the kind. -/
theorem frame?_propagated_eq (ha : a.Valid) (kind : Kind) (key : FrameKey) :
    (a.propagated site extra).frame? kind key =
      (a.get? kind).bind fun s => (s.propagateWith extra site).get? key :=
  frame?_mapSets ha fun s hs =>
    ⟨FrameSet.valid_propagateWith hs site extra, FrameSet.kind_propagateWith s⟩

theorem propagated_leq_iff (ha : a.Valid) (hb : b.Valid) (hab : a.leq b) :
    (a.propagated site extra).leq (b.propagated site extra) ↔
      ∀ kind s t, a.get? kind = some s → b.get? kind = some t →
        (s.propagateWith extra site).leq (t.propagateWith extra site) := by
  change (a.propagated site extra).sets.leq (b.propagated site extra).sets ↔ _
  rw [Grouped.leq_iff]
  constructor
  · intro hall kind s t hs ht
    cases hempty : (s.propagateWith extra site).isEmpty with
    | true => rw [FrameSet.leq, hempty, Bool.true_or]
    | false =>
        obtain ⟨c, hc, hle⟩ := hall kind _ ((get?_propagated ha).2 ⟨s, hs, rfl, hempty⟩)
        obtain ⟨t', ht', rfl, -⟩ := (get?_propagated hb).1 hc
        rw [Option.some.inj (ht.symm.trans ht')]
        exact hle
  · intro hall kind m hm
    obtain ⟨s, hs, rfl, hne⟩ := (get?_propagated ha).1 hm
    rcases Grouped.leq_iff.1 hab kind s hs with ⟨t, ht, -⟩
    have hle := hall kind s t hs ht
    refine ⟨_, (get?_propagated hb).2 ⟨t, ht, rfl, ?_⟩, hle⟩
    rw [← Bool.not_eq_true] at hne ⊢
    exact fun hempty => hne (FrameSet.isEmpty_of_leq hle hempty)

/-- Valid taint crosses a call without a fault, and the order is kept exactly when in every kind the
features that are certain of the larger ordinary frames are certain of the smaller ones, and the
larger producers keep what the smaller ones have. -/
theorem propagate_leq_iff (ha : a.Valid) (hb : b.Valid) (hab : a.leq b) (site : CallSite)
    (extra : MayAlways) (c c' : Context) :
    ∃ pa pb, (a.propagate site extra c).1 = .ok pa ∧ (b.propagate site extra c').1 = .ok pb ∧
      (pa.leq pb ↔ ∀ kind s t, a.get? kind = some s → b.get? kind = some t →
        (s.crossingOrdinary site ≠ [] →
          CertaintyKept extra (s.ordinaryFeatures site) (t.ordinaryFeatures site)) ∧
        (s.crossingProducers site ≠ [] → FrameSet.ProducersKept extra site s t)) := by
  refine ⟨a.propagated site extra, b.propagated site extra, ?_, ?_, ?_⟩
  · rw [propagate_of_valid ha]
  · rw [propagate_of_valid hb]
  · rw [propagated_leq_iff ha hb hab]
    refine forall_congr' fun kind => forall_congr' fun s => forall_congr' fun t =>
      forall_congr' fun hs => forall_congr' fun ht => ?_
    obtain ⟨hvalid, hkind⟩ := valid_of_get? ha hs
    obtain ⟨hvalid', hkind'⟩ := valid_of_get? hb ht
    rcases Grouped.leq_iff.1 hab kind s hs with ⟨t', ht', hle⟩
    obtain rfl : t = t' := Option.some.inj (ht.symm.trans ht')
    exact FrameSet.propagateWith_leq_iff hvalid hvalid' (hkind.trans hkind'.symm) hle

/-- Taints whose frames differ in inferred features, distances, origins and positions alone stay in
order behind an instruction without features of its own. -/
theorem propagated_leq_of_agrees (ha : a.Valid) (hb : b.Valid) (hab : a.leq b)
    (hextra : extra.isEmpty) (hagree : ∀ kind key f g, a.frame? kind key = some f →
      b.frame? kind key = some g → f.Agrees g) :
    (a.propagated site extra).leq (b.propagated site extra) := by
  apply (propagated_leq_iff ha hb hab).2
  intro kind s t hs ht
  obtain ⟨hvalid, hkind⟩ := valid_of_get? ha hs
  obtain ⟨hvalid', hkind'⟩ := valid_of_get? hb ht
  rcases Grouped.leq_iff.1 hab kind s hs with ⟨t', ht', hle⟩
  obtain rfl : t = t' := Option.some.inj (ht.symm.trans ht')
  apply FrameSet.propagateWith_leq_of_agrees hvalid hvalid' (hkind.trans hkind'.symm) hle hextra
  intro key f g hf hg
  rw [← frame?_of_get? hs] at hf
  rw [← frame?_of_get? ht] at hg
  exact hagree kind key f g hf hg

end Taint

/-- A frame that came through one call and holds one feature for certain. -/
def Frame.sample : Frame :=
  { Frame.declared ⟨"Source"⟩ (.ofRoot .result) with
    callee := some ⟨"LSource;.read:()V"⟩
    inferred := .ofAlways (.ofList [⟨"seen"⟩]) }

def CallSite.sample : CallSite where
  callee := ⟨⟨"LParser;.parse:(I)V"⟩, false⟩
  port := .ofRoot (.argument 1)
  position := ⟨none, 1⟩
  maxDistance := 5

namespace Taint

/-- A further feature that only may hold keeps the order. -/
theorem propagate_leq_of_more_may :
    let a := ofList [.sample]
    let b := ofList [{ Frame.sample with inferred := .ofSets (.ofList [⟨"new"⟩]) (.ofList [⟨"seen"⟩]) }]
    a.leq b ∧ ∀ kind s t, a.get? kind = some s → b.get? kind = some t →
      (s.crossingOrdinary .sample ≠ [] →
        CertaintyKept .bottom (s.ordinaryFeatures .sample) (t.ordinaryFeatures .sample)) ∧
      (s.crossingProducers .sample ≠ [] → FrameSet.ProducersKept .bottom .sample s t) := by
  intro a b
  have ha : a.Valid := valid_ofList _
  have hb : b.Valid := valid_ofList _
  have hab : a.leq b := by decide
  obtain ⟨pa, pb, hpa, hpb, hiff⟩ :=
    propagate_leq_iff ha hb hab .sample .bottom ⟨.ofPreset .fast, []⟩ ⟨.ofPreset .fast, []⟩
  rw [propagate_of_valid ha] at hpa
  rw [propagate_of_valid hb] at hpb
  cases hpa
  cases hpb
  exact ⟨hab, hiff.1 (by decide)⟩

/-- A feature given by the user makes a frame larger in front of the call, and certain of more
behind it. -/
theorem propagate_not_leq_of_user_feature :
    let c : Context := ⟨.ofPreset .fast, []⟩
    let a := ofList [.sample]
    let b := ofList [{ Frame.sample with userFeatures := .ofList [⟨"user"⟩] }]
    a.Valid ∧ b.Valid ∧ a.leq b ∧ ∃ pa pb, (a.propagate .sample .bottom c).1 = .ok pa ∧
      (b.propagate .sample .bottom c).1 = .ok pb ∧ pa.leq pb = false := by
  intro c a b
  have ha : a.Valid := valid_ofList _
  have hb : b.Valid := valid_ofList _
  refine ⟨ha, hb, by decide, a.propagated .sample .bottom, b.propagated .sample .bottom, ?_, ?_, ?_⟩
  · rw [propagate_of_valid ha]
  · rw [propagate_of_valid hb]
  · decide

end Taint
end TaintFlow
