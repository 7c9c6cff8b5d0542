import TaintFlow.Proofs.Validity.TwoKinds

/-!
# Runs of operations

A machine whose registers hold taint, frames at call positions and frame sets, and whose steps are
the operations that a caller may ask for, on registers and with arguments of its choice. An operation
that has no result, because it faults or because a document cannot be read, leaves all registers as
they were.

One operation alone can leave a register that is not valid: a join or a widening of frame sets that
puts frames of one kind into a set of another. All registers of a run are valid up to the first such
step, so until then a frame is always found under the kind and the key that it has at that moment.
-/
namespace TaintFlow

/-- A change of frames that keeps their kinds. A change that remembers the frames it has met is a
function as well, since no frame occurs twice in a value. -/
structure FrameChange where
  apply : Frame → Frame
  kind_apply : ∀ f, (apply f).kind = f.kind

/-- Changes of all frames, both of taint and of the frames at a call position. -/
inductive FrameEdit where
  | map (change : FrameChange)
  | addInferredFeatures (features : MayAlways)
  | addLocalPosition (position : Position)
  | setLocalPositions (positions : SortedSet Position)
  | addInferredFeaturesAndLocalPosition (features : MayAlways) (position : Option Position)

namespace FrameEdit

def onTaint : FrameEdit → Taint → Taint
  | map change => .map change.apply
  | addInferredFeatures features => .addInferredFeatures features
  | addLocalPosition position => .addLocalPosition position
  | setLocalPositions positions => .setLocalPositions positions
  | addInferredFeaturesAndLocalPosition features position =>
    .addInferredFeaturesAndLocalPosition features position

def onCalls : FrameEdit → CallPositionFrames → CallPositionFrames
  | map change => .map change.apply
  | addInferredFeatures features => .addInferredFeatures features
  | addLocalPosition position => .addLocalPosition position
  | setLocalPositions positions => .setLocalPositions positions
  | addInferredFeaturesAndLocalPosition features position =>
    .addInferredFeaturesAndLocalPosition features position

/-- A change of all frames at a call position is the change of the taint, and the position stays. -/
theorem onCalls_eq (e : FrameEdit) (c : CallPositionFrames) :
    e.onCalls c = ⟨c.position, (e.onTaint c.toTaint).sets⟩ := by
  cases e with
  | map change => rfl
  | addInferredFeatures features => exact c.addInferredFeatures_eq features
  | addLocalPosition position => rfl
  | setLocalPositions positions => rfl
  | addInferredFeaturesAndLocalPosition features position =>
      exact c.addInferredFeaturesAndLocalPosition_eq features position

theorem toTaint_onCalls (e : FrameEdit) (c : CallPositionFrames) :
    (e.onCalls c).toTaint = e.onTaint c.toTaint := by
  rw [onCalls_eq]
  rfl

theorem valid_onTaint (e : FrameEdit) {t : Taint} (ht : t.Valid) : (e.onTaint t).Valid := by
  cases e with
  | map change => exact Taint.valid_map ht change.kind_apply
  | addInferredFeatures features =>
      simp only [onTaint, Taint.addInferredFeatures]
      split
      · exact ht
      · exact Taint.valid_map ht fun _ => rfl
  | addLocalPosition position => exact Taint.valid_map ht fun _ => rfl
  | setLocalPositions positions => exact Taint.valid_map ht fun _ => rfl
  | addInferredFeaturesAndLocalPosition features position =>
      simp only [onTaint, Taint.addInferredFeaturesAndLocalPosition]
      split
      · exact ht
      · exact Taint.valid_map ht (Taint.kind_annotate features position)

theorem valid_onCalls (e : FrameEdit) {c : CallPositionFrames} (hc : c.toTaint.Valid) :
    (e.onCalls c).toTaint.Valid := by
  rw [toTaint_onCalls]
  exact valid_onTaint e hc

end FrameEdit

/-- Changes of taint that are not changes of all frames. -/
inductive TaintEdit where
  | clear
  | add (f : Frame)
  | filter (keep : FrameSet → Bool)
  | appendPort (element : PathElement) (p : Kind → Bool)
  | updateNonLeafPositions (newCall : Signature → AccessPath → Option Position → Position)
      (newLocal : SortedSet Position → SortedSet Position)
  | filterInvalidFrames (valid : Option Signature → AccessPath → Kind → Bool)
  | attachPosition (position : Position)
  | transformKinds (mapKind : Kind → List Kind) (featuresOf : Kind → MayAlways)

namespace TaintEdit

def apply : TaintEdit → Taint → Taint
  | clear => fun _ => ∅
  | add f => (·.add f)
  | filter keep => .filter keep
  | appendPort element p => .appendPort element p
  | updateNonLeafPositions newCall newLocal => .updateNonLeafPositions newCall newLocal
  | filterInvalidFrames valid => .filterInvalidFrames valid
  | attachPosition position => .attachPosition position
  | transformKinds mapKind featuresOf => .transformKinds mapKind featuresOf

theorem valid_apply (e : TaintEdit) {t : Taint} (ht : t.Valid) : (e.apply t).Valid := by
  cases e with
  | clear => exact Taint.valid_empty
  | add f => exact Taint.valid_add ht f
  | filter keep => exact Taint.valid_filter ht keep
  | appendPort element p => exact Taint.valid_appendPort ht element p
  | updateNonLeafPositions newCall newLocal =>
      exact Taint.valid_map ht (Taint.kind_movePositions newCall newLocal)
  | filterInvalidFrames valid => exact Taint.valid_filterInvalidFrames ht valid
  | attachPosition position => exact Taint.valid_ofList _
  | transformKinds mapKind featuresOf => exact Taint.valid_transformKinds ht mapKind featuresOf

end TaintEdit

/-- Changes of a frame set that always have a result. -/
inductive SetEdit where
  | map (change : FrameChange)
  | filter (keep : Frame → Bool)

namespace SetEdit

def apply : SetEdit → FrameSet → FrameSet
  | map change => .map change.apply
  | filter keep => .filter keep

theorem valid_apply (e : SetEdit) {s : FrameSet} (hs : s.Valid) : (e.apply s).Valid := by
  cases e with
  | map change => exact FrameSet.valid_map hs change.kind_apply
  | filter keep => exact FrameSet.valid_filter hs keep

end SetEdit

inductive Combination where
  | join
  | widen
  | meet
  | narrow
  | difference

namespace Combination

def onTaint : Combination → Taint → Taint → Taint
  | join => .join
  | widen => .widen
  | meet => .meet
  | narrow => .narrow
  | difference => .difference

def onCalls : Combination → CallPositionFrames → CallPositionFrames →
    Except Fault CallPositionFrames
  | join => CallPositionFrames.join
  | widen => CallPositionFrames.widen
  | meet => CallPositionFrames.meet
  | narrow => CallPositionFrames.narrow
  | difference => CallPositionFrames.difference

def onSets : Combination → FrameSet → FrameSet → FrameSet
  | join => .join
  | widen => .widen
  | meet => .meet
  | narrow => .narrow
  | difference => .difference

/-- Whether the combination puts frames of another kind into the set on the left. -/
def MixesKinds : Combination → FrameSet → FrameSet → Prop
  | join | widen => FrameSet.TakesForeign
  | meet | narrow | difference => fun _ _ => False

theorem valid_onTaint (c : Combination) {t u : Taint} (ht : t.Valid) (hu : u.Valid) :
    (c.onTaint t u).Valid := by
  cases c with
  | join => exact Taint.joinLaws.join_mem ht hu
  | widen => exact Taint.valid_widen ht hu
  | meet => exact Taint.valid_meet ht hu
  | narrow => exact Taint.valid_meet ht hu
  | difference => exact Taint.valid_difference ht

/-- Where frames at call positions may be combined, they are combined as taint. -/
theorem toTaint_of_onCalls (c : Combination) {l r d : CallPositionFrames}
    (h : c.onCalls l r = .ok d) : d.toTaint = c.onTaint l.toTaint r.toTaint := by
  cases c <;> rw [CallPositionFrames.eq_of_combined h] <;> rfl

theorem valid_onCalls (c : Combination) {l r d : CallPositionFrames} (hl : l.toTaint.Valid)
    (hr : r.toTaint.Valid) (h : c.onCalls l r = .ok d) : d.toTaint.Valid := by
  rw [toTaint_of_onCalls c h]
  exact valid_onTaint c hl hr

theorem valid_onSets_iff (c : Combination) {s t : FrameSet} (hs : s.Valid) (ht : t.Valid) :
    (c.onSets s t).Valid ↔ ¬ c.MixesKinds s t := by
  cases c with
  | join => exact FrameSet.valid_join_iff hs ht
  | widen => exact FrameSet.valid_widen_iff hs ht
  | meet => exact iff_of_true (FrameSet.valid_meet hs ht) not_false
  | narrow => exact iff_of_true (FrameSet.valid_meet hs ht) not_false
  | difference => exact iff_of_true (FrameSet.valid_difference hs) not_false

end Combination

/-- One step: an operation on registers, and the register that takes its result. -/
inductive Operation where
  | newTaint (frames : List Frame) (into : Nat)
  | readTaint (json : Json) (into : Nat)
  | editFrames (edit : FrameEdit) (source into : Nat)
  | editTaint (edit : TaintEdit) (source into : Nat)
  | combineTaint (combination : Combination) (left right into : Nat)
  | addFrames (source set into : Nat)
  | propagateTaint (site : CallSite) (extra : MayAlways) (source into : Nat)
  | partOfKind (kind : Kind) (source into : Nat)
  | newCalls (frames : List Frame) (into : Nat)
  | addToCalls (f : Frame) (source into : Nat)
  | editCalls (edit : FrameEdit) (source into : Nat)
  | combineCalls (combination : Combination) (left right into : Nat)
  | propagateCalls (site : CallSite) (source into : Nat)
  | newSet (kind : Kind) (frames : List Frame) (into : Nat)
  | addToSet (f : Frame) (source into : Nat)
  | editSet (edit : SetEdit) (source into : Nat)
  | combineSets (combination : Combination) (left right into : Nat)
  | setOfTaint (kind : Kind) (source into : Nat)
  | setOfCalls (kind : Kind) (source into : Nat)

/-- The registers, and what is shared by all operations. -/
structure Registers where
  taint : Nat → Taint
  calls : Nat → CallPositionFrames
  set : Nat → FrameSet
  context : Context
  registry : Registry

namespace Registers

def initial (context : Context) (registry : Registry) : Registers where
  taint _ := ∅
  calls _ := ∅
  set _ := .empty ⟨""⟩
  context := context
  registry := registry

def putTaint (r : Registers) (into : Nat) : Option Taint → Registers
  | some t => { r with taint := fun i => if i = into then t else r.taint i }
  | none => r

def putCalls (r : Registers) (into : Nat) : Option CallPositionFrames → Registers
  | some c => { r with calls := fun i => if i = into then c else r.calls i }
  | none => r

def putSet (r : Registers) (into : Nat) : Option FrameSet → Registers
  | some s => { r with set := fun i => if i = into then s else r.set i }
  | none => r

def step (r : Registers) : Operation → Registers
  | .newTaint frames into => r.putTaint into (some (.ofList frames))
  | .readTaint json into =>
    let (outcome, registry) := (Taint.ofJson json).run r.registry
    { r with registry }.putTaint into outcome.toOption
  | .editFrames edit source into => r.putTaint into (some (edit.onTaint (r.taint source)))
  | .editTaint edit source into => r.putTaint into (some (edit.apply (r.taint source)))
  | .combineTaint combination left right into =>
    r.putTaint into (some (combination.onTaint (r.taint left) (r.taint right)))
  | .addFrames source set into => r.putTaint into (some ((r.taint source).addFrames (r.set set)))
  | .propagateTaint site extra source into =>
    let (outcome, context) := (r.taint source).propagate site extra r.context
    { r with context }.putTaint into outcome.toOption
  | .partOfKind kind source into =>
    r.putTaint into ((r.taint source).partitionByKind.lookup kind)
  | .newCalls frames into => r.putCalls into (CallPositionFrames.ofList frames).toOption
  | .addToCalls f source into => r.putCalls into ((r.calls source).add f).toOption
  | .editCalls edit source into => r.putCalls into (some (edit.onCalls (r.calls source)))
  | .combineCalls combination left right into =>
    r.putCalls into (combination.onCalls (r.calls left) (r.calls right)).toOption
  | .propagateCalls site source into =>
    let (outcome, context) := (r.calls source).propagate site r.context
    { r with context }.putCalls into outcome.toOption
  | .newSet kind frames into => r.putSet into (FrameSet.ofList kind frames).toOption
  | .addToSet f source into => r.putSet into ((r.set source).add f).toOption
  | .editSet edit source into => r.putSet into (some (edit.apply (r.set source)))
  | .combineSets combination left right into =>
    r.putSet into (some (combination.onSets (r.set left) (r.set right)))
  | .setOfTaint kind source into => r.putSet into ((r.taint source).get? kind)
  | .setOfCalls kind source into => r.putSet into ((r.calls source).get? kind)

def run (r : Registers) (operations : List Operation) : Registers := operations.foldl step r

/-- Whether the operation puts frames of one kind into a set of another. -/
def MixesKinds (r : Registers) : Operation → Prop
  | .combineSets combination left right _ => combination.MixesKinds (r.set left) (r.set right)
  | _ => False

theorem set_putSet (r : Registers) (into : Nat) (s : FrameSet) :
    (r.putSet into (some s)).set into = s := if_pos rfl

theorem run_take_succ {operations : List Operation} {n : Nat} {operation : Operation}
    (h : operations[n]? = some operation) (r : Registers) :
    r.run (operations.take (n + 1)) = (r.run (operations.take n)).step operation := by
  rw [List.take_add_one, h, run, List.foldl_append]
  rfl

structure Valid (r : Registers) : Prop where
  taint (i : Nat) : (r.taint i).Valid
  calls (i : Nat) : (r.calls i).toTaint.Valid
  set (i : Nat) : (r.set i).Valid

theorem valid_initial (context : Context) (registry : Registry) :
    (initial context registry).Valid where
  taint _ := Taint.valid_empty
  calls _ := Taint.valid_empty
  set _ := FrameSet.valid_empty _

variable {r : Registers} (hr : r.Valid) (into : Nat)
include hr

theorem Valid.putTaint {t? : Option Taint} (h : ∀ t, t? = some t → t.Valid) :
    (r.putTaint into t?).Valid := by
  cases t? with
  | none => exact hr
  | some t =>
      refine { hr with taint := fun i => ?_ }
      show Taint.Valid (if i = into then t else r.taint i)
      split
      · exact h t rfl
      · exact hr.taint i

theorem Valid.putCalls {c? : Option CallPositionFrames}
    (h : ∀ c, c? = some c → c.toTaint.Valid) : (r.putCalls into c?).Valid := by
  cases c? with
  | none => exact hr
  | some c =>
      refine { hr with calls := fun i => ?_ }
      show Taint.Valid (CallPositionFrames.toTaint (if i = into then c else r.calls i))
      split
      · exact h c rfl
      · exact hr.calls i

theorem Valid.putSet {s? : Option FrameSet} (h : ∀ s, s? = some s → s.Valid) :
    (r.putSet into s?).Valid := by
  cases s? with
  | none => exact hr
  | some s =>
      refine { hr with set := fun i => ?_ }
      show FrameSet.Valid (if i = into then s else r.set i)
      split
      · exact h s rfl
      · exact hr.set i

omit into in
/-- An operation that does not mix kinds keeps all registers valid, whether or not it has a result. -/
theorem valid_step {operation : Operation} (hkinds : ¬ r.MixesKinds operation) :
    (r.step operation).Valid := by
  cases operation with
  | newTaint frames into =>
      rw [step]
      apply hr.putTaint into
      intro result hresult
      cases hresult
      exact Taint.valid_ofList frames
  | readTaint json into =>
      have hread : Valid { r with registry := ((Taint.ofJson json).run r.registry).2 } := { hr with }
      apply hread.putTaint into
      intro t ht
      exact Taint.valid_of_ofJson (ok_of_toOption ht)
  | editFrames edit source into =>
      rw [step]
      apply hr.putTaint into
      intro result hresult
      cases hresult
      exact edit.valid_onTaint (hr.taint source)
  | editTaint edit source into =>
      rw [step]
      apply hr.putTaint into
      intro result hresult
      cases hresult
      exact edit.valid_apply (hr.taint source)
  | combineTaint combination left right into =>
      rw [step]
      apply hr.putTaint into
      intro result hresult
      cases hresult
      exact combination.valid_onTaint (hr.taint left) (hr.taint right)
  | addFrames source set into =>
      rw [step]
      apply hr.putTaint into
      intro result hresult
      cases hresult
      exact Taint.valid_addFrames (hr.taint source) (hr.set set)
  | propagateTaint site extra source into =>
      have hcrossed : Valid { r with
          context := ((r.taint source).propagate site extra r.context).2 } := { hr with }
      apply hcrossed.putTaint into
      intro t ht
      exact Taint.valid_of_propagate (hr.taint source) r.context (ok_of_toOption ht)
  | partOfKind kind source into =>
      apply hr.putTaint into
      intro t ht
      rcases List.lookup_eq_some_iff.1 ht with ⟨before, after, hparts, -⟩
      apply Taint.valid_of_mem_partitionByKind (hr.taint source)
      rw [hparts]
      exact List.mem_append_right before (List.mem_cons_self ..)
  | newCalls frames into =>
      apply hr.putCalls into
      intro c hc
      exact CallPositionFrames.valid_ofList (ok_of_toOption hc)
  | addToCalls f source into =>
      apply hr.putCalls into
      intro c hc
      exact CallPositionFrames.valid_add (hr.calls source) (ok_of_toOption hc)
  | editCalls edit source into =>
      rw [step]
      apply hr.putCalls into
      intro result hresult
      cases hresult
      exact edit.valid_onCalls (hr.calls source)
  | combineCalls combination left right into =>
      apply hr.putCalls into
      intro c hc
      exact combination.valid_onCalls (hr.calls left) (hr.calls right) (ok_of_toOption hc)
  | propagateCalls site source into =>
      have hcrossed : Valid { r with
          context := ((r.calls source).propagate site r.context).2 } := { hr with }
      apply hcrossed.putCalls into
      intro c hc
      exact CallPositionFrames.valid_of_propagate (hr.calls source) r.context (ok_of_toOption hc)
  | newSet kind frames into =>
      apply hr.putSet into
      intro s hs
      exact FrameSet.valid_ofList (ok_of_toOption hs)
  | addToSet f source into =>
      apply hr.putSet into
      intro s hs
      exact FrameSet.valid_add (hr.set source) (ok_of_toOption hs)
  | editSet edit source into =>
      rw [step]
      apply hr.putSet into
      intro result hresult
      cases hresult
      exact edit.valid_apply (hr.set source)
  | combineSets combination left right into =>
      rw [step]
      apply hr.putSet into
      intro result hresult
      cases hresult
      exact (combination.valid_onSets_iff (hr.set left) (hr.set right)).2 hkinds
  | setOfTaint kind source into =>
      apply hr.putSet into
      intro s hs
      exact (Taint.valid_of_get? (hr.taint source) hs).1
  | setOfCalls kind source into =>
      apply hr.putSet into
      intro s hs
      have hget : (r.calls source).toTaint.get? kind = some s := hs
      exact (Taint.valid_of_get? (hr.calls source) hget).1

omit into in
/-- Exactly the operations that do not mix kinds keep all registers valid. -/
theorem valid_step_iff (operation : Operation) :
    (r.step operation).Valid ↔ ¬ r.MixesKinds operation := by
  refine ⟨fun hstep hmixes => ?_, valid_step hr⟩
  cases operation with
  | combineSets combination left right into =>
      have hvalid := hstep.set into
      rw [step, set_putSet] at hvalid
      exact (combination.valid_onSets_iff (hr.set left) (hr.set right)).1 hvalid hmixes
  | _ => exact hmixes

end Registers

/-- Every frame has the kind of the set and is found under the key that it has, and no two frames
have one key. -/
structure FrameSet.Represented (s : FrameSet) : Prop where
  kind_eq : ∀ f ∈ s.toList, f.kind = s.kind
  key_eq : ∀ key f, s.get? key = some f → f.key = key
  get?_key : ∀ f ∈ s.toList, s.get? f.key = some f
  nodup_keys : (s.toList.map Frame.key).Nodup

/-- Every set is found under its own kind, has frames, and is represented as it should be. -/
structure Taint.Represented (t : Taint) : Prop where
  kind_eq : ∀ kind s, t.get? kind = some s → s.kind = kind
  get?_kind : ∀ s ∈ t.sets.elements, t.get? s.kind = some s
  isEmpty_eq : ∀ s ∈ t.sets.elements, s.isEmpty = false
  sets : ∀ s ∈ t.sets.elements, s.Represented
  nodup_kinds : t.kinds.Nodup

theorem FrameSet.represented_iff {s : FrameSet} : s.Represented ↔ s.Valid := by
  constructor
  · intro hs
    exact ⟨fun key f hf => ⟨hs.key_eq key f hf, rfl⟩, hs.kind_eq⟩
  · intro hs
    refine ⟨hs.2, fun key f hf => (hs.1 key f hf).1, fun f hf => ?_, ?_⟩
    · exact (valid_iff.1 hs).get?_groupKey hf
    · have hkeys : s.toList.map Frame.key = s.frames.groups.keys := hs.1.map_groupKey
      rw [hkeys]
      exact Grouped.nodup_keys s.frames

theorem Taint.represented_iff {t : Taint} : t.Represented ↔ t.Valid := by
  constructor
  · intro ht
    refine ⟨fun kind s hs => ⟨ht.kind_eq kind s hs, ?_⟩, fun s hs => ?_⟩
    · exact ht.isEmpty_eq s (Grouped.mem_elements.2 ⟨kind, hs⟩)
    · exact FrameSet.represented_iff.1 (ht.sets s hs)
  · intro ht
    refine ⟨fun kind s hs => (valid_of_get? ht hs).2, fun s hs => ?_, fun s hs => ?_,
      fun s hs => FrameSet.represented_iff.2 (ht.2 s hs), ?_⟩
    · exact (valid_iff.1 ht).get?_groupKey hs
    · exact (valid_iff.1 ht).isBottom_eq_false hs
    · have hkinds : t.kinds = t.sets.groups.keys := ht.1.map_groupKey
      rw [hkinds]
      exact Grouped.nodup_keys t.sets

namespace Registers

/-- All registers are represented as they should be. -/
structure Represented (r : Registers) : Prop where
  taint (i : Nat) : (r.taint i).Represented
  calls (i : Nat) : (r.calls i).toTaint.Represented
  set (i : Nat) : (r.set i).Represented

theorem represented_iff {r : Registers} : r.Represented ↔ r.Valid := by
  constructor
  · intro hr
    exact ⟨fun i => Taint.represented_iff.1 (hr.taint i),
      fun i => Taint.represented_iff.1 (hr.calls i), fun i => FrameSet.represented_iff.1 (hr.set i)⟩
  · intro hr
    exact ⟨fun i => Taint.represented_iff.2 (hr.taint i),
      fun i => Taint.represented_iff.2 (hr.calls i), fun i => FrameSet.represented_iff.2 (hr.set i)⟩

variable {r : Registers} {operations : List Operation}

theorem valid_run_take (hr : r.Valid) (hkinds : ∀ n operation, operations[n]? = some operation →
    ¬ (r.run (operations.take n)).MixesKinds operation) (n : Nat) :
    (r.run (operations.take n)).Valid := by
  induction n with
  | zero => exact hr
  | succ n ih =>
      cases hnext : operations[n]? with
      | none =>
          rw [List.take_add_one, hnext, Option.toList_none, List.append_nil]
          exact ih
      | some operation =>
          rw [run_take_succ hnext]
          exact valid_step ih (hkinds n operation hnext)

/-- Whatever operations are run, in whatever order: all registers are represented as they should be
after every step exactly when no step mixes kinds. -/
theorem represented_run_iff (context : Context) (registry : Registry)
    (operations : List Operation) :
    let after (n : Nat) := (initial context registry).run (operations.take n)
    (∀ n, (after n).Represented) ↔
      ∀ n operation, operations[n]? = some operation → ¬ (after n).MixesKinds operation := by
  simp only [represented_iff]
  constructor
  · intro hvalid n operation hnext
    have hstep := hvalid (n + 1)
    rw [run_take_succ hnext] at hstep
    exact (valid_step_iff (hvalid n) operation).1 hstep
  · intro hkinds
    exact valid_run_take (valid_initial context registry) hkinds

/-- A set of sources takes in the return frame of a set of sinks, and brings it into a taint. -/
theorem not_represented_of_mixed_kinds :
    let source : Frame := .declared ⟨"Source"⟩ (.ofRoot .leaf)
    let sink : Frame := .declared ⟨"Sink"⟩ (.ofRoot .result)
    let r := (initial ⟨.ofPreset .fast, []⟩ .empty).run [.newSet source.kind [source] 0,
      .newSet sink.kind [sink] 1, .combineSets .join 0 1 0, .addFrames 0 0 0]
    ¬ (r.set 0).Represented ∧ ¬ (r.taint 0).Represented := by
  intro source sink r
  have hset : ¬ (r.set 0).Represented := by
    intro hset
    have hmem : sink ∈ (r.set 0).toList := by decide
    have hkind : sink.kind = (r.set 0).kind := hset.kind_eq sink hmem
    exact absurd hkind (by decide)
  refine ⟨hset, fun htaint => hset (htaint.sets (r.set 0) ?_)⟩
  decide

/-- A set of sources is joined with a set of sinks whose only frame has the key of a frame there. -/
theorem represented_run_of_taken_key :
    let source : Frame := .declared ⟨"Source"⟩ (.ofRoot .leaf)
    let sink : Frame := .declared ⟨"Sink"⟩ (.ofRoot .leaf)
    let operations : List Operation := [.newSet source.kind [source] 0,
      .newSet sink.kind [sink] 1, .combineSets .join 0 1 0, .addFrames 0 0 0]
    ∀ n, ((initial ⟨.ofPreset .fast, []⟩ .empty).run (operations.take n)).Represented := by
  intro source sink operations
  refine (represented_run_iff _ _ operations).2 fun n operation hnext => ?_
  match n with
  | 0 | 1 | 3 =>
      cases hnext
      exact id
  | 2 =>
      cases hnext
      have hkept : ¬ FrameSet.TakesForeign ⟨source.kind, .ofList [source]⟩
          ⟨sink.kind, .ofList [sink]⟩ := by decide
      exact hkept
  | _ + 4 => cases hnext

end Registers
end TaintFlow
