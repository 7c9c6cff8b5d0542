import TaintFlow.Proofs.CallPositions.Machine
import TaintFlow.Proofs.Propagation.Order

/-!
# Frames at a call position follow taint

Frames at a call position are taint together with a position, and as long as there is no fault the
position decides nothing. A run without a fault therefore has the same answers on taint, and leaves
the same frames under the same kinds and keys.

Only the features of a call instruction are put in different places. Taint takes them over as
inferred features when it propagates. Frames at a call position propagate without them, and are then
given them as locally inferred features. No frame has locally inferred features of its own behind a
call, so the features of the frames come out the same.
-/
namespace TaintFlow

namespace Frame

/-- The frames tell the same of the flow, and differ at most in where their features are put. -/
structure SameFlow (f g : Frame) : Prop where
  kind : f.kind = g.kind
  key : f.key = g.key
  distance : f.distance = g.distance
  origins : f.origins = g.origins
  fieldOrigins : f.fieldOrigins = g.fieldOrigins
  canonicalNames : f.canonicalNames = g.canonicalNames
  features : f.features = g.features

theorem SameFlow.refl (f : Frame) : f.SameFlow f := ⟨rfl, rfl, rfl, rfl, rfl, rfl, rfl⟩

/-- On a frame without locally inferred features, the features of a call instruction say the same
wherever they are put. -/
theorem sameFlow_withExtra {f : Frame} (hf : f.locallyInferred = .bottom) {extra : MayAlways}
    (hextra : extra.isEmpty = false) :
    (f.addInferredFeatures extra).SameFlow (f.withExtra extra) := by
  have hlocal : MayAlways.bottom.compose extra = extra := by cases extra <;> rfl
  have hbehind : MayAlways.behind extra f.inferred = f.inferred.compose extra := by
    rw [MayAlways.behind, if_neg (Bool.not_eq_true _ ▸ hextra)]
  have hfeatures : (f.addInferredFeatures extra).features = (f.withExtra extra).features := by
    simp only [features, addInferredFeatures, withExtra, hf, hlocal, hbehind]
    rfl
  exact ⟨rfl, rfl, rfl, rfl, rfl, rfl, hfeatures⟩

end Frame

namespace Taint

variable {t : Taint} {site : CallSite} {extra : MayAlways} {kind : Kind} {key : FrameKey}

/-- All features behind a call are inferred features. -/
theorem locallyInferred_propagated (ht : t.Valid) (site : CallSite) :
    (t.propagated site .bottom).Within (·.locallyInferred = .bottom) := by
  have hjoin : Frame.JoinClosed (·.locallyInferred = .bottom) := by
    intro f g hf hg
    change f.locallyInferred.join g.locallyInferred = .bottom
    rw [hf, hg]
    rfl
  apply within_propagated_of_atCall ht hjoin
  · intros
    rfl
  · intro f hf
    exact hf

/-- The features of a call instruction change each frame behind the call where it stands. -/
theorem frame?_propagated (ht : t.Valid) (extra : MayAlways) :
    (t.propagated site extra).frame? kind key =
      ((t.propagated site .bottom).frame? kind key).map (Frame.withExtra extra) := by
  rw [frame?_propagated_eq ht, frame?_propagated_eq ht]
  cases hs : t.get? kind with
  | none => rfl
  | some s => exact FrameSet.get?_propagateWith (valid_of_get? ht hs).1 key

theorem propagated_of_isEmpty (t : Taint) (site : CallSite) (hextra : extra.isEmpty) :
    t.propagated site extra = t.propagated site .bottom := by
  have hset (s : FrameSet) : s.propagateWith extra site = s.propagate site := by
    rw [FrameSet.propagateWith, if_pos hextra]
  simp only [propagated, hset]
  rfl

/-- It makes no difference to the flow whether frames take the features of a call instruction over as
they propagate, or are given them afterwards. -/
theorem sameFlow_propagated (ht : t.Valid) : Option.Rel Frame.SameFlow
    (((t.propagated site .bottom).addInferredFeatures extra).frame? kind key)
    ((t.propagated site extra).frame? kind key) := by
  have hbehind := valid_propagated ht site .bottom
  have hlocal := locallyInferred_propagated ht site
  cases hextra : extra.isEmpty with
  | true =>
      rw [propagated_of_isEmpty t site hextra, addInferredFeatures, if_pos hextra]
      cases (t.propagated site .bottom).frame? kind key with
      | none => exact .none
      | some f => exact .some (.refl f)
  | false =>
      have hgiven : ((t.propagated site .bottom).addInferredFeatures extra).frame? kind key =
          ((t.propagated site .bottom).frame? kind key).map (·.addInferredFeatures extra) := by
        rw [addInferredFeatures, if_neg (Bool.not_eq_true _ ▸ hextra)]
        exact frame?_map hbehind (fun _ => rfl) fun _ => rfl
      rw [hgiven, frame?_propagated ht extra]
      cases hf : (t.propagated site .bottom).frame? kind key with
      | none => exact .none
      | some f =>
          have hmem := mem_frames_of_frame? hbehind hf
          exact .some (Frame.sameFlow_withExtra (hlocal.of_mem hmem) hextra)

end Taint

namespace CallPositionFrames

variable {c d : CallPositionFrames}

/-- Propagating frames at a call position and taint with the same frames. -/
theorem propagate_sameFlow (hc : c.Valid) (site : CallSite) (extra : MayAlways) :
    ∃ p q ds, (∀ context, c.propagate site context = (.ok p, context.report ds)) ∧
      (∀ context, c.toTaint.propagate site extra context = (.ok q, context.report ds)) ∧
      (extra.isEmpty → p.toTaint = q) ∧
      ∀ kind key, Option.Rel Frame.SameFlow
        ((p.addInferredFeatures extra).toTaint.frame? kind key) (q.frame? kind key) := by
  refine ⟨c.propagated site, c.toTaint.propagated site extra, c.anomalies site,
    propagate_of_valid hc site, Taint.propagate_of_valid hc.1 site extra, ?_, ?_⟩
  · intro hextra
    rw [Taint.propagated_of_isEmpty c.toTaint site hextra, toTaint_propagated]
  · intro kind key
    rw [addInferredFeatures_eq, toTaint_propagated]
    exact Taint.sameFlow_propagated hc.1

end CallPositionFrames

theorem Comparison.eq_onTaint (comparison : Comparison) {c d : CallPositionFrames} {yes : Bool}
    (h : comparison.onCalls c d = .ok yes) : yes = comparison.onTaint c.toTaint d.toTaint := by
  cases comparison <;> exact CallPositionFrames.eq_of_combined h

namespace Bank

/-- The operations on taint. It has no position, and only propagation could fault. -/
def stepTaint (b : Bank Taint) : SharedOperation → Except Fault (Option Bool) × Bank Taint
  | .add f target => (.ok none, b.put target ((b.value target).add f))
  | .combine combination target other =>
    (.ok none, b.put target (combination.onTaint (b.value target) (b.value other)))
  | .compare comparison left right =>
    (.ok (some (comparison.onTaint (b.value left) (b.value right))), b)
  | .edit edit _ target => (.ok none, b.put target (edit.onTaint (b.value target)))
  | .propagate site source into =>
    b.receive into ((b.value source).propagate site .bottom b.context)

/-- The same frames without their positions. -/
def asTaint (b : Bank CallPositionFrames) : Bank Taint where
  value i := (b.value i).toTaint
  context := b.context

variable {b b' : Bank CallPositionFrames} {operation : SharedOperation} {answer : Option Bool}

theorem asTaint_put (b : Bank CallPositionFrames) (target : Nat) (c : CallPositionFrames) :
    (b.put target c).asTaint = b.asTaint.put target c.toTaint := by
  simp only [asTaint, put, apply_ite]

/-- A step that has a result is the same step on taint. -/
theorem stepTaint_asTaint (hb : ∀ i, (b.value i).Valid)
    (h : b.resultCalls operation = .ok (answer, b')) :
    b.asTaint.stepTaint operation = (.ok answer, b'.asTaint) := by
  cases operation with
  | add f target =>
      obtain ⟨c, hadd, heq⟩ := exists_of_map_ok h
      cases heq
      rw [asTaint_put, CallPositionFrames.toTaint_of_add hadd]
      rfl
  | combine combination target other =>
      obtain ⟨c, hcombine, heq⟩ := exists_of_map_ok h
      cases heq
      rw [asTaint_put, combination.toTaint_of_onCalls hcombine]
      rfl
  | compare comparison left right =>
      obtain ⟨yes, hcompare, heq⟩ := exists_of_map_ok h
      cases heq
      rw [comparison.eq_onTaint hcompare]
      rfl
  | edit edit keeps target =>
      cases h
      rw [asTaint_put, edit.toTaint_onCalls]
      rfl
  | propagate site source into =>
      cases h
      have hcross : (b.asTaint.value source).propagate site .bottom b.asTaint.context = _ :=
        Taint.propagate_of_valid (hb source).1 site .bottom b.context
      rw [asTaint_put, CallPositionFrames.toTaint_propagated, stepTaint, hcross]
      rfl

theorem run_asTaint (hb : ∀ i, (b.value i).Valid) {operations : List SharedOperation}
    (hok : ∀ outcome ∈ (run stepCalls b operations).1, outcome.isOk) :
    run stepTaint b.asTaint operations =
      ((run stepCalls b operations).1, (run stepCalls b operations).2.asTaint) := by
  induction operations generalizing b with
  | nil => rfl
  | cons operation operations ih =>
      rw [run_cons, stepCalls_eq hb] at hok
      rw [run_cons, run_cons, stepCalls_eq hb]
      cases hresult : b.resultCalls operation with
      | error fault =>
          rw [hresult] at hok
          cases hok _ (List.mem_cons_self ..)
      | ok result =>
          obtain ⟨answer, b'⟩ := result
          rw [hresult] at hok
          have hrest := ih (valid_resultCalls hb hresult) fun outcome houtcome =>
            hok outcome (List.mem_cons_of_mem _ houtcome)
          rw [stepTaint_asTaint hb hresult, settle, hrest]

/-- A run without a fault has the same outcomes on taint, with the same answers to comparisons, and
leaves the same frames under the same kinds and keys; any first part of it is such a run too. Each
value also propagates as taint does, and the same is reported: without further features the frames
are the same, and with them they tell the same of the flow. -/
theorem run_agrees (context : Context) (operations : List SharedOperation)
    (hok : ∀ outcome ∈ (run stepCalls (initial context) operations).1, outcome.isOk) :
    let calls := run stepCalls (initial context) operations
    let taint := run stepTaint (initial context) operations
    taint.1 = calls.1 ∧ taint.2.context = calls.2.context ∧
      ∀ i, (calls.2.value i).toTaint = taint.2.value i ∧ ∀ site extra, ∃ p q ds,
        (∀ c, (calls.2.value i).propagate site c = (.ok p, c.report ds)) ∧
        (∀ c, (taint.2.value i).propagate site extra c = (.ok q, c.report ds)) ∧
        (extra.isEmpty → p.toTaint = q) ∧
        ∀ kind key, Option.Rel Frame.SameFlow
          ((p.addInferredFeatures extra).toTaint.frame? kind key) (q.frame? kind key) := by
  have hempty : ∀ i, ((initial context : Bank CallPositionFrames).value i).Valid :=
    fun _ => CallPositionFrames.valid_empty
  have hvalid := valid_runCalls hempty operations
  have hagree := run_asTaint hempty hok
  change run stepTaint (initial context) operations = _ at hagree
  rw [hagree]
  refine ⟨rfl, rfl, fun i => ⟨rfl, fun site extra => ?_⟩⟩
  exact CallPositionFrames.propagate_sameFlow (hvalid i) site extra

/-- A run that joins two frames, compares and annotates them, and takes them across a call. -/
theorem run_agrees_of_two_frames :
    let context : Context := ⟨.ofPreset .fast, []⟩
    let f := { Frame.sample with callPosition := some ⟨none, 1⟩ }
    let g := { f with port := .ofRoot (.argument 0), distance := 2 }
    let extra : MayAlways := .ofAlways (.ofList [⟨"call"⟩])
    let operations : List SharedOperation := [.add f 0, .add g 1, .combine .join 0 1,
      .compare .leq 1 0, .compare .equals 1 0,
      .edit (.addInferredFeaturesAndLocalPosition extra (some ⟨none, 2⟩)) trivial 0,
      .propagate .sample 0 2]
    let calls := run stepCalls (initial context) operations
    let taint := run stepTaint (initial context) operations
    (∀ outcome ∈ calls.1, outcome.isOk) ∧ taint.1 = calls.1 ∧
      (calls.2.value 2).toTaint = taint.2.value 2 ∧ (calls.2.value 2).isEmpty = false ∧
      ∃ p q ds, (∀ c, (calls.2.value 0).propagate .sample c = (.ok p, c.report ds)) ∧
        (∀ c, (taint.2.value 0).propagate .sample extra c = (.ok q, c.report ds)) ∧
        ∀ kind key, Option.Rel Frame.SameFlow
          ((p.addInferredFeatures extra).toTaint.frame? kind key) (q.frame? kind key) := by
  intro context f g extra operations
  have hok : ∀ outcome ∈ (run stepCalls (initial context) operations).1, outcome.isOk := by decide
  have hsome : ((run stepCalls (initial context) operations).2.value 2).isEmpty = false := by decide
  have hagree := run_agrees context operations hok
  generalize run stepCalls (initial context) operations = calls at hok hsome hagree ⊢
  generalize run stepTaint (initial context) operations = taint at hagree ⊢
  obtain ⟨houtcomes, -, hvalues⟩ := hagree
  obtain ⟨p, q, ds, hp, hq, -, hflow⟩ := (hvalues 0).2 .sample extra
  exact ⟨hok, houtcomes, (hvalues 2).1, hsome, p, q, ds, hp, hq, hflow⟩

end Bank
end TaintFlow
