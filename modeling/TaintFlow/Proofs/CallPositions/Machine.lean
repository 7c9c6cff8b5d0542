import TaintFlow.CallPositionFrames.Update
import TaintFlow.Proofs.Order.Difference
import TaintFlow.Proofs.Propagation.Crossing
import TaintFlow.Proofs.Validity.Machine
import TaintFlow.Proofs.Validity.Within

/-!
# Call positions along a run

A bank holds any number of values, which are changed, compared and propagated by the operations that
taint and frames at a call position have in common. A fault does not end a run: the caller may catch
it and go on with the values as they are then.

The position of frames at a call position is out of date once all frames are gone, and it is not
looked at until the next frame brings a position of its own. So whatever the run, all frames of a
value are at the position of that value, an operation faults exactly when frames of two positions
would come together, and a fault changes nothing.
-/
namespace TaintFlow

def Frame.IsAt (position : Option Position) (f : Frame) : Prop := f.callPosition = position

theorem Frame.joinClosed_isAt (position : Option Position) : JoinClosed (IsAt position) :=
  fun _ _ hf _ => hf

namespace Taint

variable {t : Taint} {site : CallSite} {extra : MayAlways}

/-- Whatever crosses, the frames behind a call are frames at the call, and joins of them. -/
theorem within_propagated_of_atCall (ht : t.Valid) {Q : Frame → Prop} (hQ : Frame.JoinClosed Q)
    (hatCall : ∀ kind port distance names features fs,
      Q (.atCall kind port site distance names features fs))
    (hextra : ∀ f, Q f → Q { f with inferred := f.inferred.compose extra }) :
    (t.propagated site extra).Within Q := by
  have hany : t.Within fun _ => True := within_iff.2 ⟨ht, fun _ _ => trivial⟩
  apply within_propagated hQ hany
  · intro f g _ _ hcross
    rw [Frame.crossProducer?_eq] at hcross
    split at hcross
    · cases hcross
      exact hatCall ..
    · cases hcross
  · intro kind fs g _ hmerge
    rw [Frame.merge?_eq] at hmerge
    obtain ⟨nearest, -, rfl⟩ := Option.map_eq_some_iff.1 hmerge
    exact hatCall ..
  · exact hextra

theorem within_isAt_propagated (ht : t.Valid) (site : CallSite) (extra : MayAlways) :
    (t.propagated site extra).Within (Frame.IsAt (some site.position)) := by
  apply within_propagated_of_atCall ht (Frame.joinClosed_isAt _)
  · intros
    rfl
  · intro f hf
    exact hf

end Taint

namespace FrameEdit

/-- Only a change that the caller chooses could move frames to another position. -/
def KeepsPositions : FrameEdit → Prop
  | map change => ∀ f, (change.apply f).callPosition = f.callPosition
  | _ => True

theorem callPosition_annotate (features : MayAlways) (position : Option Position) (f : Frame) :
    (Taint.annotate features position f).callPosition = f.callPosition := by
  unfold Taint.annotate
  split <;> cases position <;> rfl

theorem within_onTaint (e : FrameEdit) (hkeeps : e.KeepsPositions) {position : Option Position}
    {t : Taint} (ht : t.Within (Frame.IsAt position)) :
    (e.onTaint t).Within (Frame.IsAt position) := by
  have hmap {change : Frame → Frame} (hkind : ∀ f, (change f).kind = f.kind)
      (hposition : ∀ f, (change f).callPosition = f.callPosition) :
      (t.map change).Within (Frame.IsAt position) :=
    Taint.within_map (Frame.joinClosed_isAt position) ht hkind fun f hf => (hposition f).trans hf
  cases e with
  | map change => exact hmap change.kind_apply hkeeps
  | addInferredFeatures features =>
      simp only [onTaint, Taint.addInferredFeatures]
      split
      · exact ht
      · exact hmap (fun _ => rfl) fun _ => rfl
  | addLocalPosition position => exact hmap (fun _ => rfl) fun _ => rfl
  | setLocalPositions positions => exact hmap (fun _ => rfl) fun _ => rfl
  | addInferredFeaturesAndLocalPosition features position =>
      simp only [onTaint, Taint.addInferredFeaturesAndLocalPosition]
      split
      · exact ht
      · exact hmap (Taint.kind_annotate features position) (callPosition_annotate features position)

end FrameEdit

namespace CallPositionFrames

variable {c d e : CallPositionFrames}

theorem valid_iff : c.Valid ↔ c.toTaint.Within (Frame.IsAt c.position) := Taint.within_iff.symm

theorem valid_empty : (∅ : CallPositionFrames).Valid := valid_iff.2 (Taint.within_of_isEmpty rfl)

theorem compatible_eq_false_iff : compatible c d = false ↔
    c.isEmpty = false ∧ d.isEmpty = false ∧ c.position ≠ d.position := by
  simp only [compatible, Bool.or_eq_false_iff, decide_eq_false_iff_not, and_assoc, ne_eq]

theorem compatible_of_combined {α : Type} {result answer : α}
    (h : combined c d result = .ok answer) : compatible c d := by
  unfold combined at h
  split at h
  · assumption
  · cases h

theorem combined_error_iff {α : Type} {result : α} :
    (∃ fault, combined c d result = .error fault) ↔ compatible c d = false := by
  unfold combined
  cases compatible c d with
  | true => simp
  | false => simp

theorem add_error_iff {f : Frame} : (∃ fault, c.add f = .error fault) ↔
    c.isEmpty = false ∧ f.callPosition ≠ c.position := by
  simp only [add]
  cases c.isEmpty with
  | true => simp
  | false =>
      by_cases hposition : c.position = f.callPosition
      · simp [hposition]
      · simp [hposition, Ne.symm hposition]

/-- Nothing is said of the position of a value without frames, so both values that are put together
are at the position that is adopted. -/
theorem Valid.within_adopted (hc : c.Valid) (hd : d.Valid) (hcompatible : compatible c d) :
    c.toTaint.Within (Frame.IsAt (adoptedPosition c d)) ∧
      d.toTaint.Within (Frame.IsAt (adoptedPosition c d)) := by
  unfold adoptedPosition
  cases hempty : c.isEmpty with
  | true => exact ⟨Taint.within_of_isEmpty hempty, valid_iff.1 hd⟩
  | false =>
      refine ⟨valid_iff.1 hc, ?_⟩
      cases hempty' : d.isEmpty with
      | true => exact Taint.within_of_isEmpty hempty'
      | false =>
          simp only [compatible, hempty, hempty', Bool.false_or, decide_eq_true_eq] at hcompatible
          rw [hcompatible]
          exact valid_iff.1 hd

theorem Valid.add (hc : c.Valid) {f : Frame} (h : c.add f = .ok d) : d.Valid := by
  have hadd {position : Option Position} (hwithin : c.toTaint.Within (Frame.IsAt position))
      (hposition : f.callPosition = position) :
      (c.toTaint.add f).Within (Frame.IsAt position) :=
    Taint.within_add (Frame.joinClosed_isAt position) hwithin hposition
  simp only [CallPositionFrames.add] at h
  split at h
  · rename_i hempty
    cases h
    exact valid_iff.2 (hadd (Taint.within_of_isEmpty hempty) rfl)
  · split at h
    · rename_i hposition
      cases h
      exact valid_iff.2 (hadd (valid_iff.1 hc) hposition.symm)
    · cases h

theorem Valid.combine (combination : Combination) (hc : c.Valid) (hd : d.Valid)
    (h : combination.onCalls c d = .ok e) : e.Valid := by
  have hclosed := Frame.joinClosed_isAt
  have hmeet : (c.toTaint.meet d.toTaint).Within (Frame.IsAt c.position) :=
    Taint.within_meet (hclosed c.position) (fun _ _ hf => hf) (valid_iff.1 hc) d.toTaint
  cases combination with
  | join =>
      obtain ⟨hleft, hright⟩ := hc.within_adopted hd (compatible_of_combined h)
      obtain rfl := eq_of_combined h
      exact valid_iff.2 (Taint.within_join (hclosed _) hleft hright)
  | widen =>
      obtain ⟨hleft, hright⟩ := hc.within_adopted hd (compatible_of_combined h)
      obtain rfl := eq_of_combined h
      exact valid_iff.2 (Taint.within_widen (hclosed _) hleft hright)
  | meet =>
      obtain rfl := eq_of_combined h
      exact valid_iff.2 hmeet
  | narrow =>
      obtain rfl := eq_of_combined h
      exact valid_iff.2 hmeet
  | difference =>
      obtain rfl := eq_of_combined h
      constructor
      · exact Taint.valid_difference (u := d.toTaint) hc.1
      · intro f hf
        exact hc.2 f ((Taint.mem_frames_difference hc.1 hd.1).1 hf).1

theorem Valid.edit (hc : c.Valid) {edit : FrameEdit} (hkeeps : edit.KeepsPositions) :
    (edit.onCalls c).Valid := by
  rw [valid_iff, edit.onCalls_eq]
  exact edit.within_onTaint hkeeps (valid_iff.1 hc)

theorem Valid.propagated (hc : c.Valid) (site : CallSite) : (c.propagated site).Valid := by
  have hbehind := Taint.within_isAt_propagated hc.1 site .bottom
  rw [← toTaint_propagated] at hbehind
  rw [valid_iff]
  by_cases hempty : (c.propagated site).isEmpty
  · exact Taint.within_of_isEmpty hempty
  · have hposition : (c.propagated site).position = some site.position := if_neg hempty
    rw [hposition]
    exact hbehind

end CallPositionFrames

namespace Combination
open CallPositionFrames (Update allOrNothing)

/-- The operation as it changes its left operand in place. -/
def update : Combination → CallPositionFrames → Update Unit
  | join => .join
  | widen => .widen
  | meet => .meet
  | narrow => .narrow
  | difference => .difference

theorem apply_update (combination : Combination) (c d : CallPositionFrames) :
    (combination.update d).apply c = allOrNothing c (combination.onCalls c d) := by
  cases combination with
  | join => exact Update.apply_enlarge Grouped.join c d
  | widen => exact Update.apply_enlarge Grouped.widen c d
  | meet => exact Update.apply_reduce Grouped.meet c d
  | narrow => exact Update.apply_reduce Grouped.narrow c d
  | difference => exact Update.apply_reduce Grouped.difference c d

theorem onCalls_error_iff (combination : Combination) {c d : CallPositionFrames} :
    (∃ fault, combination.onCalls c d = .error fault) ↔ c.compatible d = false := by
  cases combination <;> exact CallPositionFrames.combined_error_iff

end Combination

inductive Comparison where
  | leq
  | equals

namespace Comparison

def onTaint : Comparison → Taint → Taint → Bool
  | leq => Taint.leq
  | equals => Taint.equals

def onCalls : Comparison → CallPositionFrames → CallPositionFrames → Except Fault Bool
  | leq => CallPositionFrames.leq
  | equals => CallPositionFrames.equals

theorem onCalls_error_iff (comparison : Comparison) {c d : CallPositionFrames} :
    (∃ fault, comparison.onCalls c d = .error fault) ↔ c.compatible d = false := by
  cases comparison <;> exact CallPositionFrames.combined_error_iff

end Comparison

/-- The operations that taint and frames at a call position have in common, on the values of a bank.
An addition, a combination and an edit change a value in place. -/
inductive SharedOperation where
  | add (f : Frame) (target : Nat)
  | combine (combination : Combination) (target other : Nat)
  | compare (comparison : Comparison) (left right : Nat)
  | edit (edit : FrameEdit) (keeps : edit.KeepsPositions) (target : Nat)
  | propagate (site : CallSite) (source into : Nat)

/-- Values, and the context under which they propagate. -/
structure Bank (α : Type) where
  value : Nat → α
  context : Context

namespace Bank

section Values

variable {α : Type}

def initial [EmptyCollection α] (context : Context) : Bank α where
  value _ := ∅
  context := context

def put (b : Bank α) (target : Nat) (a : α) : Bank α :=
  { b with value := fun i => if i = target then a else b.value i }

theorem put_value (b : Bank α) (target : Nat) : b.put target (b.value target) = b := by
  have hvalue (i : Nat) : (if i = target then b.value target else b.value i) = b.value i := by
    split
    · rename_i heq
      rw [heq]
    · rfl
  simp only [put, hvalue]

theorem forall_put {p : α → Prop} {b : Bank α} (hb : ∀ i, p (b.value i)) (target : Nat) {a : α}
    (ha : p a) (i : Nat) : p ((b.put target a).value i) := by
  simp only [put]
  split
  · exact ha
  · exact hb i

/-- The outcomes of operations that are asked for one after the other, a comparison's with its answer,
and the bank after the last of them. -/
def run (step : Bank α → SharedOperation → Except Fault (Option Bool) × Bank α) :
    Bank α → List SharedOperation → List (Except Fault (Option Bool)) × Bank α
  | b, [] => ([], b)
  | b, operation :: operations =>
    let (outcome, b) := step b operation
    let (outcomes, b) := run step b operations
    (outcome :: outcomes, b)

theorem run_cons (step : Bank α → SharedOperation → Except Fault (Option Bool) × Bank α)
    (b : Bank α) (operation : SharedOperation) (operations : List SharedOperation) :
    run step b (operation :: operations) =
      ((step b operation).1 :: (run step (step b operation).2 operations).1,
        (run step (step b operation).2 operations).2) := rfl

/-- Take over what is behind a call, if there was no fault, and what was reported. -/
def receive (b : Bank α) (into : Nat) :
    Except Fault α × Context → Except Fault (Option Bool) × Bank α
  | (.ok a, context) => (.ok none, { b with context }.put into a)
  | (.error fault, context) => (.error fault, { b with context })

/-- What a step does to the bank `b` when it changes nothing unless it has a result. -/
def settle (b : Bank α) :
    Except Fault (Option Bool × Bank α) → Except Fault (Option Bool) × Bank α
  | .ok (answer, b') => (.ok answer, b')
  | .error fault => (.error fault, b)

end Values

open CallPositionFrames (Update allOrNothing)

variable {b b' : Bank CallPositionFrames} {operation : SharedOperation} {answer : Option Bool}

/-- Change a value in place. A fault leaves whatever the update has made of the value by then. -/
def update (b : Bank CallPositionFrames) (target : Nat) (u : Update Unit) :
    Except Fault (Option Bool) × Bank CallPositionFrames :=
  let (outcome, c) := u.apply (b.value target)
  (outcome.map fun _ => none, b.put target c)

theorem update_eq {target : Nat} {u : Update Unit} {result : Except Fault CallPositionFrames}
    (h : u.apply (b.value target) = allOrNothing (b.value target) result) :
    b.update target u = b.settle (result.map fun c => (none, b.put target c)) := by
  rw [update, h]
  cases result with
  | ok c => rfl
  | error fault =>
      simp only [allOrNothing, put_value]
      rfl

def stepCalls (b : Bank CallPositionFrames) :
    SharedOperation → Except Fault (Option Bool) × Bank CallPositionFrames
  | .add f target => b.update target (.add f)
  | .combine combination target other => b.update target (combination.update (b.value other))
  | .compare comparison left right =>
    ((comparison.onCalls (b.value left) (b.value right)).map some, b)
  | .edit edit _ target => (.ok none, b.put target (edit.onCalls (b.value target)))
  | .propagate site source into => b.receive into ((b.value source).propagate site b.context)

/-- The answer and the bank that an operation leads to, or its fault. -/
def resultCalls (b : Bank CallPositionFrames) :
    SharedOperation → Except Fault (Option Bool × Bank CallPositionFrames)
  | .add f target => ((b.value target).add f).map fun c => (none, b.put target c)
  | .combine combination target other =>
    (combination.onCalls (b.value target) (b.value other)).map fun c => (none, b.put target c)
  | .compare comparison left right =>
    (comparison.onCalls (b.value left) (b.value right)).map fun answer => (some answer, b)
  | .edit edit _ target => .ok (none, b.put target (edit.onCalls (b.value target)))
  | .propagate site source into =>
    let context := b.context.report ((b.value source).anomalies site)
    .ok (none, { b with context }.put into ((b.value source).propagated site))

/-- Frames of two positions would come together. -/
def Clashes (b : Bank CallPositionFrames) : SharedOperation → Prop
  | .add f target => (b.value target).isEmpty = false ∧ f.callPosition ≠ (b.value target).position
  | .combine _ left right | .compare _ left right =>
    (b.value left).isEmpty = false ∧ (b.value right).isEmpty = false ∧
      (b.value left).position ≠ (b.value right).position
  | .edit .. | .propagate .. => False

section Map

variable {α β : Type} {f : α → β} {result : Except Fault α}

theorem map_error_iff :
    (∃ fault, result.map f = .error fault) ↔ ∃ fault, result = .error fault := by
  cases result with
  | ok a => simp [Except.map]
  | error fault => simp [Except.map]

theorem exists_of_map_ok {answer : β} (h : result.map f = .ok answer) :
    ∃ a, result = .ok a ∧ f a = answer := by
  cases result with
  | ok a => exact ⟨a, rfl, Except.ok.inj h⟩
  | error fault => cases h

end Map

theorem resultCalls_error_iff :
    (∃ fault, b.resultCalls operation = .error fault) ↔ b.Clashes operation := by
  cases operation with
  | add f target => exact map_error_iff.trans CallPositionFrames.add_error_iff
  | combine combination target other =>
      refine map_error_iff.trans (combination.onCalls_error_iff.trans ?_)
      exact CallPositionFrames.compatible_eq_false_iff
  | compare comparison left right =>
      refine map_error_iff.trans (comparison.onCalls_error_iff.trans ?_)
      exact CallPositionFrames.compatible_eq_false_iff
  | edit edit keeps target => simp [resultCalls, Clashes]
  | propagate site source into => simp [resultCalls, Clashes]

section Valid

variable (hb : ∀ i, (b.value i).Valid)
include hb

/-- Every step is all or nothing: updates look for faults first, and valid frames propagate without
a fault. -/
theorem stepCalls_eq (operation : SharedOperation) :
    b.stepCalls operation = b.settle (b.resultCalls operation) := by
  cases operation with
  | add f target => exact update_eq (Update.apply_add f (b.value target))
  | combine combination target other => exact update_eq (combination.apply_update _ _)
  | compare comparison left right =>
      simp only [stepCalls, resultCalls]
      cases comparison.onCalls (b.value left) (b.value right) <;> rfl
  | edit edit keeps target => rfl
  | propagate site source into =>
      rw [stepCalls, CallPositionFrames.propagate_of_valid (hb source)]
      rfl

theorem valid_resultCalls (h : b.resultCalls operation = .ok (answer, b')) (i : Nat) :
    (b'.value i).Valid := by
  cases operation with
  | add f target =>
      obtain ⟨c, hadd, heq⟩ := exists_of_map_ok h
      cases heq
      exact forall_put hb target ((hb target).add hadd) i
  | combine combination target other =>
      obtain ⟨c, hcombine, heq⟩ := exists_of_map_ok h
      cases heq
      exact forall_put hb target ((hb target).combine combination (hb other) hcombine) i
  | compare comparison left right =>
      obtain ⟨yes, -, heq⟩ := exists_of_map_ok h
      cases heq
      exact hb i
  | edit edit keeps target =>
      cases h
      exact forall_put hb target ((hb target).edit keeps) i
  | propagate site source into =>
      cases h
      exact forall_put hb into ((hb source).propagated site) i

theorem valid_stepCalls (operation : SharedOperation) (i : Nat) :
    ((b.stepCalls operation).2.value i).Valid := by
  rw [stepCalls_eq hb]
  cases hresult : b.resultCalls operation with
  | error fault => exact hb i
  | ok result => exact valid_resultCalls hb hresult i

theorem valid_runCalls (operations : List SharedOperation) (i : Nat) :
    ((run stepCalls b operations).2.value i).Valid := by
  induction operations generalizing b with
  | nil => exact hb i
  | cons operation operations ih => exact ih (valid_stepCalls hb operation)

end Valid

/-- Whatever is asked for, in whatever order, all frames of a value are at the position of that value,
also when the value was emptied and filled at another position in between. An operation faults
exactly when frames of two positions would come together, and then nothing has changed. -/
theorem callPosition_eq_of_run (context : Context) (operations : List SharedOperation) :
    let b := (run stepCalls (initial context) operations).2
    (∀ i, (b.value i).isEmpty = false →
      ∀ f ∈ (b.value i).frames, f.callPosition = (b.value i).position) ∧
    ∀ operation, ((∃ fault, (b.stepCalls operation).1 = .error fault) ↔ b.Clashes operation) ∧
      (b.Clashes operation → (b.stepCalls operation).2 = b) := by
  intro b
  have hb : ∀ i, (b.value i).Valid :=
    valid_runCalls (fun _ => CallPositionFrames.valid_empty) operations
  refine ⟨fun i _ => (hb i).2, fun operation => ?_⟩
  rw [stepCalls_eq hb, ← resultCalls_error_iff]
  cases b.resultCalls operation with
  | error fault => simp [settle]
  | ok result => simp [settle]

/-- A value that was emptied may be filled at another position. -/
example :
    let f (line : Int32) : Frame :=
      { Frame.declared ⟨"Source"⟩ (.ofRoot .result) with callPosition := some ⟨none, line⟩ }
    let b := (run stepCalls (initial ⟨.ofPreset .fast, []⟩)
      [.add (f 1) 0, .combine .difference 0 0, .add (f 2) 0]).2
    (b.value 0).frames = [f 2] ∧ (b.value 0).position = some ⟨none, 2⟩ := by
  decide

end Bank
end TaintFlow
