import TaintFlow.Frame.Printer
import TaintFlow.FrameSet
import TaintFlow.Propagation.Context
import TaintFlow.Propagation.ViaPorts

/-!
# Frames of one kind across a call

The frames known at a port of the callee become frames that the caller sees at the call. Ordinary
frames are merged into one frame: it is one call farther than the nearest of them, has the origins
of all, and joins their features. A producer declaration gives a frame of its own, at distance 0,
with its canonical names resolved for the callee and the port in canonical form. Frames at the
greatest distance or beyond do not cross.

A frame behind the call that comes from a producer has the producer's own kind, and a kind other
than that of the set is a fault. Valid sets give rise to none.
-/
namespace TaintFlow

namespace Frame

/-- Whether the frame is near enough to cross the call. -/
def crosses (site : CallSite) (f : Frame) : Bool := decide (f.distance < site.maxDistance)

/-- The features that hold on the frame's own path behind the call. -/
def contribution (f : Frame) (site : CallSite) (constants : List (Option String)) : MayAlways :=
  (f.features.addAllAlways (f.viaTypeFeatures site)).addAllAlways (f.viaValueFeatures constants)

/-- Merge the frames that cross into one frame at the call; there is none when none crosses. -/
def merge? (kind : Kind) (frames : List Frame) (site : CallSite)
    (constants : List (Option String)) : Option Frame :=
  let crossing := frames.filter (·.crosses site)
  (crossing.map distance).min?.map fun nearest =>
    { kind
      port := site.port
      callee := some site.callee.signature
      callPosition := some site.position
      distance := nearest + 1
      origins := crossing.foldl (fun acc f => acc.union f.origins) ∅
      fieldOrigins := crossing.foldl (fun acc f => acc.union f.fieldOrigins) ∅
      inferred := crossing.foldl (fun acc f => acc.join (f.contribution site constants)) .bottom }

def resolvedNames (f : Frame) (site : CallSite) : SortedSet CanonicalName :=
  .ofList <| f.canonicalNames.toList.filterMap fun name =>
    name.instantiate site.callee.signature (f.viaTypeFeatures site)

/-- The frame of a producer declaration behind the call. Constants are not turned into features
here, and a producer without a name that can be resolved has no frame. -/
def crossProducer? (f : Frame) (site : CallSite) : Option Frame :=
  let names := f.resolvedNames site
  if names.isEmpty then none
  else (merge? f.kind [f] site []).map fun merged =>
    { merged with
      port := merged.port.canonicalize site.callee
      distance := 0
      canonicalNames := names }

/-- What is reported of a frame that crosses as an ordinary frame. -/
def anomalies (f : Frame) (site : CallSite) : List Diagnostic :=
  if f.crosses site then f.invalidPorts site site.constants else []

/-- What is reported of a producer declaration that crosses. No constant is observed for it. -/
def producerAnomalies (f : Frame) (site : CallSite) : List Diagnostic :=
  if f.crosses site then
    f.invalidPorts site [] ++
      if f.canonicalNames.isEmpty then [.producerWithoutNames f.kind f.text] else []
  else []

end Frame

namespace FrameSet

def producers (s : FrameSet) : List Frame := s.toList.filter (·.isProducerDeclaration)

def ordinary (s : FrameSet) : List Frame := s.toList.filter (!·.isProducerDeclaration)

/-- The frames behind the call: one for each producer that crosses, and one for all others. Frames
with equal keys are merged, as everywhere. -/
def propagate (s : FrameSet) (site : CallSite) : FrameSet :=
  { s with
    frames := Grouped.ofList <|
      s.producers.filterMap (·.crossProducer? site)
        ++ (Frame.merge? s.kind s.ordinary site site.constants).toList }

def anomalies (s : FrameSet) (site : CallSite) : List Diagnostic :=
  s.producers.flatMap (·.producerAnomalies site) ++ s.ordinary.flatMap (·.anomalies site)

/-- Whether a producer has another kind than the set and crosses the call. -/
def isStray (s : FrameSet) (site : CallSite) (f : Frame) : Bool :=
  decide (f.kind ≠ s.kind) && (f.crossProducer? site).isSome

def stray? (s : FrameSet) (site : CallSite) : Option Frame := s.producers.find? (s.isStray site)

theorem stray?_of_valid {s : FrameSet} (h : s.Valid) (site : CallSite) : s.stray? site = none := by
  simp only [stray?, List.find?_eq_none]
  intro f hf
  simp [isStray, h.2 f (List.mem_filter.1 hf).1]

/-- What is reported when the frames cross the call: everything, or what there is up to the producer
that is a fault. -/
def reported (s : FrameSet) (site : CallSite) : List Diagnostic :=
  match s.stray? site with
  | none => s.anomalies site
  | some f =>
    (s.producers.takeWhile (!s.isStray site ·) ++ [f]).flatMap (·.producerAnomalies site)

/-- What is reported when sets cross the call one after the other, until there is a fault, and the
fault. -/
def crossing (site : CallSite) : List FrameSet → List Diagnostic × Option Fault
  | [] => ([], none)
  | s :: r =>
    match s.stray? site with
    | some f => (s.reported site, some (.kindMismatch f.kind s.kind))
    | none =>
      let (later, fault?) := crossing site r
      (s.reported site ++ later, fault?)

theorem crossing_of_valid {sets : List FrameSet} (h : ∀ s ∈ sets, s.Valid) (site : CallSite) :
    crossing site sets = (sets.flatMap (·.anomalies site), none) := by
  induction sets with
  | nil => rfl
  | cons s r ih =>
    have hs := stray?_of_valid (h s (by simp)) site
    simp [crossing, reported, hs, ih fun t ht => h t (by simp [ht])]

/-- The outcome for sets that cross the call: a result unless there is a fault, and the context with
what was reported. -/
def outcome {α : Type} (sets : List FrameSet) (site : CallSite) (result : α) (c : Context) :
    Except Fault α × Context :=
  let (ds, fault?) := crossing site sets
  (fault?.elim (.ok result) .error, c.report ds)

/-- Valid sets cross without a fault, and everything is reported. -/
theorem outcome_of_valid {α : Type} {sets : List FrameSet} (h : ∀ s ∈ sets, s.Valid)
    (site : CallSite) (result : α) (c : Context) :
    outcome sets site result c = (.ok result, c.report (sets.flatMap (·.anomalies site))) := by
  simp [outcome, crossing_of_valid h site]

end FrameSet
end TaintFlow
