import TaintFlow.Frame.Parts
import TaintFlow.Proofs.Feature.WellFormed
import TaintFlow.Proofs.Propagation.Order
import TaintFlow.Proofs.Validity.Machine

/-!
# Features that a caller can come to

A caller who starts with nothing writes features down, builds frames with them, puts frames into
sets, taint and the frames of a call, and takes them out again. Whatever a caller comes to that way,
without reading a document, has well-formed features only.

A change of all frames of a value may use what the caller holds besides the frame that is changed,
so what can be reached is said relative to the values that the caller holds.
-/
namespace TaintFlow

/-- What a caller can hold. -/
inductive Value where
  | features (m : MayAlways)
  | frame (f : Frame)
  | set (s : FrameSet)
  | calls (c : CallPositionFrames)
  | taint (t : Taint)

/-- All features of the value, and of the frames in it, are well formed. -/
def Value.WellFormed : Value → Prop
  | features m => m.WellFormed
  | frame f => f.WellFormed
  | set s => s.WellFormed
  | calls c => c.toTaint.WellFormed
  | taint t => t.WellFormed

/-- Features as a caller writes them down. -/
inductive FeatureSource where
  | bottom
  | empty
  | ofAlways (fs : FeatureSet)
  | ofMay (fs : FeatureSet)
  | ofSets (may always : FeatureSet)

namespace FeatureSource

def value : FeatureSource → MayAlways
  | bottom => .bottom
  | empty => .empty
  | ofAlways fs => .ofAlways fs
  | ofMay fs => .ofMay fs
  | ofSets may always => .ofSets may always

theorem wellFormed_value (o : FeatureSource) : o.value.WellFormed := by
  cases o with
  | bottom => exact trivial
  | empty => exact MayAlways.wellFormed_ofMay ∅
  | ofAlways fs => exact MayAlways.wellFormed_ofAlways fs
  | ofMay fs => exact MayAlways.wellFormed_ofMay fs
  | ofSets may always => exact MayAlways.wellFormed_ofSets may always

end FeatureSource

inductive FeatureEdit where
  | addMay (x : Feature)
  | addAlways (x : Feature)
  | addAllAlways (xs : FeatureSet)

namespace FeatureEdit

def apply : FeatureEdit → MayAlways → MayAlways
  | addMay x => (·.addMay x)
  | addAlways x => (·.addAlways x)
  | addAllAlways xs => (·.addAllAlways xs.toList)

theorem wellFormed_apply (e : FeatureEdit) {m : MayAlways} (hm : m.WellFormed) :
    (e.apply m).WellFormed := by
  cases e with
  | addMay x => exact hm.addMay x
  | addAlways x => exact hm.addAllAlways [x]
  | addAllAlways xs => exact hm.addAllAlways xs.toList

end FeatureEdit

inductive FeatureCombination where
  | compose
  | join
  | widen
  | meet
  | narrow

namespace FeatureCombination

def apply : FeatureCombination → MayAlways → MayAlways → MayAlways
  | compose => .compose
  | join => AbstractDomain.join
  | widen => AbstractDomain.widen
  | meet => AbstractDomain.meet
  | narrow => AbstractDomain.narrow

theorem wellFormed_apply (c : FeatureCombination) {m n : MayAlways} (hm : m.WellFormed)
    (hn : n.WellFormed) : (c.apply m n).WellFormed := by
  cases c with
  | compose => exact hm.compose hn
  | join => exact hm.join hn
  | widen => exact hm.join hn
  | meet => exact MayAlways.wellFormed_meet m n
  | narrow => exact MayAlways.wellFormed_meet m n

end FeatureCombination

namespace FramePart

/-- What a caller must hold to describe a frame by the part. -/
def Uses : FramePart → Value → Prop
  | inferred features, v => v = .features features
  | locallyInferred features, v => v = .features features
  | _, _ => False

theorem wellFormed_withPart (part : FramePart) {f : Frame} (hf : f.WellFormed)
    (hused : ∀ v, part.Uses v → v.WellFormed) : (f.withPart part).WellFormed := by
  cases part with
  | inferred features => exact ⟨hused (.features features) rfl, hf.2⟩
  | locallyInferred features => exact ⟨hf.1, hused (.features features) rfl⟩
  | _ => exact hf

theorem wellFormed_ofParts (kind : Kind) (port : AccessPath) {parts : List FramePart}
    (hused : ∀ part ∈ parts, ∀ v, part.Uses v → v.WellFormed) :
    (Frame.ofParts kind port parts).WellFormed := by
  have hbuilt : (Frame.declared kind port).WellFormed := ⟨trivial, trivial⟩
  unfold Frame.ofParts
  generalize Frame.declared kind port = f at hbuilt
  induction parts generalizing f with
  | nil => exact hbuilt
  | cons part parts ih =>
      have hstep := part.wellFormed_withPart hbuilt (hused part List.mem_cons_self)
      exact ih (fun p hp => hused p (List.mem_cons_of_mem part hp)) _ hstep

end FramePart

/-- Changes of a single frame. -/
inductive FrameOperation where
  | addInferredFeatures (features : MayAlways)
  | addLocalPosition (position : Position)
  | setLocalPositions (positions : SortedSet Position)
  | appendPort (element : PathElement)
  | withKind (kind : Kind)

namespace FrameOperation

def apply : FrameOperation → Frame → Frame
  | addInferredFeatures features => .addInferredFeatures features
  | addLocalPosition position => .addLocalPosition position
  | setLocalPositions positions => .setLocalPositions positions
  | appendPort element => .appendPort element
  | withKind kind => .withKind kind

def Uses : FrameOperation → Value → Prop
  | addInferredFeatures features, v => v = .features features
  | _, _ => False

theorem wellFormed_apply (o : FrameOperation) {f : Frame} (hf : f.WellFormed)
    (hused : ∀ v, o.Uses v → v.WellFormed) : (o.apply f).WellFormed := by
  cases o with
  | addInferredFeatures features => exact hf.addInferredFeatures (hused (.features features) rfl)
  | _ => exact hf

end FrameOperation

namespace FrameEdit

def Uses : FrameEdit → Value → Prop
  | addInferredFeatures features, v => v = .features features
  | addInferredFeaturesAndLocalPosition features _, v => v = .features features
  | _, _ => False

theorem wellFormed_onTaint (e : FrameEdit) {t : Taint} (ht : t.WellFormed)
    (hused : ∀ v, e.Uses v → v.WellFormed)
    (hchange : ∀ change, e = .map change → ∀ f, f.WellFormed → (change.apply f).WellFormed) :
    (e.onTaint t).WellFormed := by
  cases e with
  | map change => exact ht.map (hchange change rfl)
  | addInferredFeatures features =>
      simp only [onTaint, Taint.addInferredFeatures]
      split
      · exact ht
      · exact ht.map fun f hf => hf.addInferredFeatures (hused (.features features) rfl)
  | addLocalPosition position => exact ht.map fun f hf => hf
  | setLocalPositions positions => exact ht.map fun f hf => hf
  | addInferredFeaturesAndLocalPosition features position =>
      simp only [onTaint, Taint.addInferredFeaturesAndLocalPosition]
      split
      · exact ht
      · exact ht.map fun f hf => hf.annotate (hused (.features features) rfl) position

end FrameEdit

namespace SetEdit

theorem wellFormed_apply (e : SetEdit) {s : FrameSet} (hs : s.WellFormed)
    (hchange : ∀ change, e = .map change → ∀ f, f.WellFormed → (change.apply f).WellFormed) :
    (e.apply s).WellFormed := by
  cases e with
  | map change => exact hs.map (hchange change rfl)
  | filter keep => exact hs.filter keep

end SetEdit

namespace TaintEdit

def Uses : TaintEdit → Value → Prop
  | add f, v => v = .frame f
  | transformKinds _ featuresOf, v => ∃ kind, v = .features (featuresOf kind)
  | _, _ => False

theorem wellFormed_apply (e : TaintEdit) {t : Taint} (ht : t.WellFormed)
    (hused : ∀ v, e.Uses v → v.WellFormed) : (e.apply t).WellFormed := by
  cases e with
  | clear => exact Taint.wellFormed_empty
  | add f => exact ht.add (hused (.frame f) rfl)
  | filter keep => exact Taint.wellFormed_iff.2 (ht.sets.filter keep)
  | appendPort element p =>
      refine ht.mapSets fun s hs => ?_
      split
      · exact hs.map fun f hf => hf
      · exact hs
  | updateNonLeafPositions newCall newLocal =>
      exact ht.map fun f hf => hf.movePositions newCall newLocal
  | filterInvalidFrames valid => exact ht.mapSets fun s hs => hs.filter _
  | attachPosition position => exact ht.attachPosition position
  | transformKinds mapKind featuresOf =>
      exact ht.transformKinds mapKind fun kind => hused (.features (featuresOf kind)) ⟨kind, rfl⟩

end TaintEdit

namespace Combination

def onFrames : Combination → Frame → Frame → Frame
  | join => AbstractDomain.join
  | widen => AbstractDomain.widen
  | meet => AbstractDomain.meet
  | narrow => AbstractDomain.narrow
  | difference => Grouping.difference

variable (c : Combination)

theorem wellFormed_onFrames {f g : Frame} (hf : f.WellFormed) (hg : g.WellFormed) :
    (c.onFrames f g).WellFormed := by
  cases c with
  | join => exact Frame.closed_wellFormed.join f g hf hg
  | widen => exact Frame.closed_wellFormed.widen f g hf hg
  | meet => exact Frame.closed_wellFormed.meet f g hf hg
  | narrow => exact Frame.closed_wellFormed.narrow f g hf hg
  | difference => exact Frame.closed_wellFormed.difference f g hf hg

theorem wellFormed_onSets {s t : FrameSet} (hs : s.WellFormed) (ht : t.WellFormed) :
    (c.onSets s t).WellFormed := by
  cases c with
  | join => exact FrameSet.closed_wellFormed.join s t hs ht
  | widen => exact FrameSet.closed_wellFormed.widen s t hs ht
  | meet => exact FrameSet.closed_wellFormed.meet s t hs ht
  | narrow => exact FrameSet.closed_wellFormed.narrow s t hs ht
  | difference => exact FrameSet.closed_wellFormed.difference s t hs ht

theorem wellFormed_onTaint {t u : Taint} (ht : t.WellFormed) (hu : u.WellFormed) :
    (c.onTaint t u).WellFormed := by
  refine Taint.wellFormed_iff.2 ?_
  cases c with
  | join => exact ht.sets.join FrameSet.closed_wellFormed hu.sets
  | widen => exact ht.sets.widen FrameSet.closed_wellFormed hu.sets
  | meet => exact ht.sets.meet FrameSet.closed_wellFormed hu.sets
  | narrow => exact ht.sets.narrow FrameSet.closed_wellFormed hu.sets
  | difference => exact ht.sets.difference FrameSet.closed_wellFormed hu.sets

end Combination

/-- What a caller who holds the values `known` can come to hold. An operation with a fault for its
result gives nothing new. -/
inductive Reachable : List Value → Value → Prop where
  | held {known : List Value} {v : Value} (h : v ∈ known) : Reachable known v
  | source {known : List Value} (o : FeatureSource) : Reachable known (.features o.value)
  | editFeatures {known : List Value} {m : MayAlways} (e : FeatureEdit)
      (hm : Reachable known (.features m)) : Reachable known (.features (e.apply m))
  | combineFeatures {known : List Value} {m n : MayAlways} (c : FeatureCombination)
      (hm : Reachable known (.features m)) (hn : Reachable known (.features n)) :
      Reachable known (.features (c.apply m n))
  | featuresOfFrame {known : List Value} {f : Frame} {m : MayAlways}
      (hf : Reachable known (.frame f)) (hm : m ∈ [f.inferred, f.locallyInferred, f.features]) :
      Reachable known (.features m)
  | featuresOfTaint {known : List Value} {t : Taint} (ht : Reachable known (.taint t)) :
      Reachable known (.features t.featuresJoined)
  | buildFrame {known : List Value} (kind : Kind) (port : AccessPath) (parts : List FramePart)
      (hused : ∀ part ∈ parts, ∀ v, part.Uses v → Reachable known v) :
      Reachable known (.frame (.ofParts kind port parts))
  | changeFrame {known : List Value} {f : Frame} (o : FrameOperation)
      (hf : Reachable known (.frame f)) (hused : ∀ v, o.Uses v → Reachable known v) :
      Reachable known (.frame (o.apply f))
  | combineFrames {known : List Value} {f g : Frame} (c : Combination)
      (hf : Reachable known (.frame f)) (hg : Reachable known (.frame g)) :
      Reachable known (.frame (c.onFrames f g))
  | frameOfSet {known : List Value} {s : FrameSet} {f : Frame} (hs : Reachable known (.set s))
      (hf : f ∈ s.toList) : Reachable known (.frame f)
  | frameOfCalls {known : List Value} {c : CallPositionFrames} {f : Frame}
      (hc : Reachable known (.calls c)) (hf : f ∈ c.frames) : Reachable known (.frame f)
  | frameOfTaint {known : List Value} {t : Taint} {f : Frame} (ht : Reachable known (.taint t))
      (hf : f ∈ t.frames) : Reachable known (.frame f)
  | emptySet {known : List Value} (kind : Kind) : Reachable known (.set (.empty kind))
  | addToSet {known : List Value} {s r : FrameSet} {f : Frame} (hs : Reachable known (.set s))
      (hf : Reachable known (.frame f)) (h : s.add f = .ok r) : Reachable known (.set r)
  | editSet {known : List Value} {s : FrameSet} (e : SetEdit) (hs : Reachable known (.set s))
      (hchange : ∀ change, e = .map change →
        ∀ f, Reachable (.frame f :: known) (.frame (change.apply f))) :
      Reachable known (.set (e.apply s))
  | combineSets {known : List Value} {s t : FrameSet} (c : Combination)
      (hs : Reachable known (.set s)) (ht : Reachable known (.set t)) :
      Reachable known (.set (c.onSets s t))
  | setOfCalls {known : List Value} {c : CallPositionFrames} {s : FrameSet}
      (hc : Reachable known (.calls c)) (hs : s ∈ c.sets.elements) : Reachable known (.set s)
  | setOfTaint {known : List Value} {t : Taint} {s : FrameSet} (ht : Reachable known (.taint t))
      (hs : s ∈ t.sets.elements) : Reachable known (.set s)
  | emptyCalls {known : List Value} : Reachable known (.calls ∅)
  | addToCalls {known : List Value} {c d : CallPositionFrames} {f : Frame}
      (hc : Reachable known (.calls c)) (hf : Reachable known (.frame f))
      (h : c.add f = .ok d) : Reachable known (.calls d)
  | editCalls {known : List Value} {c : CallPositionFrames} (e : FrameEdit)
      (hc : Reachable known (.calls c)) (hused : ∀ v, e.Uses v → Reachable known v)
      (hchange : ∀ change, e = .map change →
        ∀ f, Reachable (.frame f :: known) (.frame (change.apply f))) :
      Reachable known (.calls (e.onCalls c))
  | combineCalls {known : List Value} {l r d : CallPositionFrames} (c : Combination)
      (hl : Reachable known (.calls l)) (hr : Reachable known (.calls r))
      (h : c.onCalls l r = .ok d) : Reachable known (.calls d)
  | propagateCalls {known : List Value} {c d : CallPositionFrames} (site : CallSite)
      (context : Context) (hc : Reachable known (.calls c))
      (h : (c.propagate site context).1 = .ok d) : Reachable known (.calls d)
  | emptyTaint {known : List Value} : Reachable known (.taint ∅)
  | addFrames {known : List Value} {t : Taint} {s : FrameSet} (ht : Reachable known (.taint t))
      (hs : Reachable known (.set s)) : Reachable known (.taint (t.addFrames s))
  | editFrames {known : List Value} {t : Taint} (e : FrameEdit) (ht : Reachable known (.taint t))
      (hused : ∀ v, e.Uses v → Reachable known v)
      (hchange : ∀ change, e = .map change →
        ∀ f, Reachable (.frame f :: known) (.frame (change.apply f))) :
      Reachable known (.taint (e.onTaint t))
  | editTaint {known : List Value} {t : Taint} (e : TaintEdit) (ht : Reachable known (.taint t))
      (hused : ∀ v, e.Uses v → Reachable known v) : Reachable known (.taint (e.apply t))
  | combineTaint {known : List Value} {t u : Taint} (c : Combination)
      (ht : Reachable known (.taint t)) (hu : Reachable known (.taint u)) :
      Reachable known (.taint (c.onTaint t u))
  | propagateTaint {known : List Value} {t u : Taint} {extra : MayAlways} (site : CallSite)
      (context : Context) (ht : Reachable known (.taint t)) (hextra : extra.WellFormed)
      (h : (t.propagate site extra context).1 = .ok u) : Reachable known (.taint u)
  | partOfTaint {known : List Value} {t u : Taint} {kind : Kind} (ht : Reachable known (.taint t))
      (h : (kind, u) ∈ t.partitionByKind) : Reachable known (.taint u)

namespace Frame

/-- A description of the frame that mentions all its components. -/
def parts (f : Frame) : List FramePart :=
  (f.callee.map .callee).toList ++ (f.fieldCallee.map .fieldCallee).toList ++
    (f.callPosition.map .callPosition).toList ++
    [.distance f.distance, .origins f.origins, .fieldOrigins f.fieldOrigins, .inferred f.inferred,
      .locallyInferred f.locallyInferred, .userFeatures f.userFeatures,
      .viaTypePorts f.viaTypePorts, .viaValuePorts f.viaValuePorts,
      .localPositions f.localPositions, .canonicalNames f.canonicalNames]

theorem ofParts_parts (f : Frame) : ofParts f.kind f.port f.parts = f := by
  have hunion {α : Type} [Ord α] [Std.TransOrd α] [Std.LawfulEqOrd α] (s : SortedSet α) :
      (∅ : SortedSet α).union s = s := SortedSet.ext fun x => by simp
  rcases f with ⟨_, _, callee, fieldCallee, callPosition, _⟩
  cases callee <;> cases fieldCallee <;> cases callPosition <;>
    simp [ofParts, parts, withPart, declared, hunion]

end Frame

/-- A caller who holds only well-formed values comes to hold no other ones. -/
theorem Reachable.wellFormed {known : List Value} {v : Value} (h : Reachable known v)
    (hknown : ∀ w ∈ known, w.WellFormed) : v.WellFormed := by
  -- A change of frames is reached by a caller who holds the frame as well.
  have hheld {known : List Value} (hknown : ∀ w ∈ known, w.WellFormed) {f : Frame}
      (hf : f.WellFormed) : ∀ w ∈ .frame f :: known, w.WellFormed :=
    List.forall_mem_cons.2 ⟨hf, hknown⟩
  induction h with
  | held h => exact hknown _ h
  | source o => exact o.wellFormed_value
  | editFeatures e _ ih => exact e.wellFormed_apply (ih hknown)
  | combineFeatures c _ _ ihm ihn => exact c.wellFormed_apply (ihm hknown) (ihn hknown)
  | featuresOfFrame _ hm ih => exact Frame.WellFormed.of_mem_features (ih hknown) hm
  | featuresOfTaint _ ih => exact Taint.WellFormed.featuresJoined (ih hknown)
  | buildFrame kind port parts _ ih =>
      exact FramePart.wellFormed_ofParts kind port fun part hpart v hv => ih part hpart v hv hknown
  | changeFrame o _ _ ihf ih => exact o.wellFormed_apply (ihf hknown) fun v hv => ih v hv hknown
  | combineFrames c _ _ ihf ihg => exact c.wellFormed_onFrames (ihf hknown) (ihg hknown)
  | frameOfSet _ hf ih => exact ih hknown _ hf
  | frameOfCalls _ hf ih => exact ih hknown _ hf
  | frameOfTaint _ hf ih => exact ih hknown _ hf
  | emptySet kind => exact FrameSet.wellFormed_empty kind
  | addToSet _ _ h ihs ihf => exact FrameSet.WellFormed.of_add (ihs hknown) (ihf hknown) h
  | editSet e _ _ ihs ihchange =>
      refine e.wellFormed_apply (ihs hknown) fun change he f hf => ?_
      exact ihchange change he f (hheld hknown hf)
  | combineSets c _ _ ihs iht => exact c.wellFormed_onSets (ihs hknown) (iht hknown)
  | setOfCalls _ hs ih => exact Taint.WellFormed.sets (ih hknown) _ hs
  | setOfTaint _ hs ih => exact Taint.WellFormed.sets (ih hknown) _ hs
  | emptyCalls => exact Taint.wellFormed_empty
  | addToCalls _ _ h ihc ihf =>
      exact CallPositionFrames.wellFormed_of_add (ihc hknown) (ihf hknown) h
  | editCalls e _ _ _ ihc ih ihchange =>
      rw [Value.WellFormed, FrameEdit.toTaint_onCalls]
      refine e.wellFormed_onTaint (ihc hknown) (fun v hv => ih v hv hknown) fun change he f hf => ?_
      exact ihchange change he f (hheld hknown hf)
  | combineCalls c _ _ h ihl ihr =>
      rw [Value.WellFormed, Combination.toTaint_of_onCalls c h]
      exact c.wellFormed_onTaint (ihl hknown) (ihr hknown)
  | propagateCalls site context _ h ih =>
      exact CallPositionFrames.wellFormed_of_propagate (ih hknown) h
  | emptyTaint => exact Taint.wellFormed_empty
  | addFrames _ _ iht ihs => exact Taint.WellFormed.addFrames (iht hknown) (ihs hknown)
  | editFrames e _ _ _ iht ih ihchange =>
      refine e.wellFormed_onTaint (iht hknown) (fun v hv => ih v hv hknown) fun change he f hf => ?_
      exact ihchange change he f (hheld hknown hf)
  | editTaint e _ _ iht ih => exact e.wellFormed_apply (iht hknown) fun v hv => ih v hv hknown
  | combineTaint c _ _ iht ihu => exact c.wellFormed_onTaint (iht hknown) (ihu hknown)
  | propagateTaint site context _ hextra h ih =>
      exact Taint.WellFormed.of_propagate (ih hknown) hextra h
  | partOfTaint _ h ih => exact Taint.WellFormed.of_mem_partitionByKind (ih hknown) h

/-- All well-formed features can be written down. -/
theorem Reachable.of_wellFormed {known : List Value} {m : MayAlways} (hm : m.WellFormed) :
    Reachable known (.features m) := by
  cases m with
  | bottom => exact .source .bottom
  | sets may always =>
      have hmay : may.union always = may := SortedSet.ext fun x =>
        SortedSet.mem_union.trans ⟨fun heither => heither.elim id (hm x), .inl⟩
      have hsource : Reachable known (.features (.ofSets may always)) :=
        .source (.ofSets may always)
      rwa [MayAlways.ofSets, hmay] at hsource

/-- The frames that a caller can come to are those with well-formed features. -/
theorem Frame.reachable_iff {known : List Value} (hknown : ∀ w ∈ known, w.WellFormed) {f : Frame} :
    Reachable known (.frame f) ↔ f.WellFormed := by
  refine ⟨fun h => h.wellFormed hknown, fun hf => ?_⟩
  have hused : ∀ part ∈ f.parts, ∀ v, part.Uses v → Reachable known v := by
    intro part hpart v hv
    cases part with
    | inferred m =>
        have hm : m = f.inferred := by simpa [parts] using hpart
        exact hv ▸ hm ▸ .of_wellFormed hf.1
    | locallyInferred m =>
        have hm : m = f.locallyInferred := by simpa [parts] using hpart
        exact hv ▸ hm ▸ .of_wellFormed hf.2
    | _ => exact hv.elim
  exact f.ofParts_parts ▸ .buildFrame f.kind f.port f.parts hused

/-- Features of a frame that is reached from nothing are bottom, or the ones that always hold are
among those that may hold. -/
theorem Frame.wellFormed_of_reachable {f : Frame} (h : Reachable [] (.frame f)) :
    f.inferred.WellFormed ∧ f.locallyInferred.WellFormed ∧ f.features.WellFormed := by
  have hf : f.WellFormed := h.wellFormed fun _ hw => nomatch hw
  exact ⟨hf.1, hf.2, hf.features⟩

/-- Two frames that differ in the features known of them are joined and cross a call whose
instruction has a feature of its own. -/
theorem Frame.wellFormed_of_reachable_behind_call :
    let port : AccessPath := .ofRoot .leaf
    let seen : FramePart := .inferred (.ofAlways (.ofList [⟨"seen"⟩]))
    let given : FramePart := .userFeatures (.ofList [⟨"user"⟩])
    let t := (Taint.ofList [.ofParts ⟨"Source"⟩ port [seen]]).join
      (.ofList [.ofParts ⟨"Source"⟩ port [seen, .locallyInferred .empty, given]])
    let f : Frame := { Frame.declared ⟨"Source"⟩ CallSite.sample.port with
      callee := some CallSite.sample.callee.signature
      callPosition := some CallSite.sample.position
      distance := 1
      inferred := .sets (.ofList [⟨"call"⟩, ⟨"seen"⟩, ⟨"user"⟩]) (.ofList [⟨"seen"⟩, ⟨"user"⟩]) }
    (t.propagated .sample (.ofMay (.ofList [⟨"call"⟩]))).frames = [f] ∧ Reachable [] (.frame f) ∧
      f.inferred.WellFormed ∧ f.locallyInferred.WellFormed ∧ f.features.WellFormed := by
  intro port seen given t f
  let extra : MayAlways := .ofMay (.ofList [⟨"call"⟩])
  have hseen : Reachable [] (.features (.ofAlways (.ofList [⟨"seen"⟩]))) := .source (.ofAlways _)
  have hempty : Reachable [] (.features .empty) := .source .empty
  have hfirst : ∀ part ∈ [seen], ∀ v, part.Uses v → Reachable [] v := by
    simp [seen, FramePart.Uses, hseen]
  have hsecond : ∀ part ∈ [seen, .locallyInferred .empty, given], ∀ v, part.Uses v →
      Reachable [] v := by
    simp [seen, given, FramePart.Uses, hseen, hempty]
  have hadded {f : Frame} (hf : Reachable [] (.frame f)) : Reachable [] (.taint (.ofList [f])) :=
    .editTaint (.add f) .emptyTaint fun v hv => hv ▸ hf
  have ht : Reachable [] (.taint t) := .combineTaint .join
    (hadded (.buildFrame _ _ _ hfirst)) (hadded (.buildFrame _ _ _ hsecond))
  have hvalid : t.Valid := Taint.joinLaws.join_mem (Taint.valid_ofList _) (Taint.valid_ofList _)
  have hcross : (t.propagate .sample extra ⟨.ofPreset .fast, []⟩).1 =
      .ok (t.propagated .sample extra) := by rw [Taint.propagate_of_valid hvalid]
  have hp : Reachable [] (.taint (t.propagated .sample extra)) :=
    .propagateTaint _ _ ht (MayAlways.wellFormed_ofMay _) hcross
  have hframes : (t.propagated .sample extra).frames = [f] := by decide
  have hf : Reachable [] (.frame f) := .frameOfTaint hp (hframes ▸ List.mem_singleton_self f)
  exact ⟨hframes, hf, f.wellFormed_of_reachable hf⟩

end TaintFlow
