import Mathlib.Data.List.Nodup
import TaintFlow.Proofs.Propagation.Pieces
import TaintFlow.Proofs.Propagation.Regimes

/-!
# What is reported of a call

Every frame that is near enough to cross a call is looked at, whether or not it leaves a frame
behind the call: its ports are held against what was observed of the arguments, and a producer
declaration must have canonical names. Each anomaly is reported once. Frames that are too far are
not looked at, and nothing that is behind the call depends on what is reported.

No constant is observed for a producer declaration. So of each port for whose value a producer asks
it is said that it is invalid and that there are no constants, also where the port is valid and
there are some. All other reports are true of the call.
-/
namespace TaintFlow

/-- Whether the port is no parameter, or lies behind the first `count` parameters. -/
def Root.isInvalid (count : Nat) : Root → Bool
  | .argument i => decide (count ≤ i.toNat)
  | _ => true

theorem Root.isNone_observed? {α : Type} (port : Root) (observations : List α) :
    (port.observed? observations).isNone = port.isInvalid observations.length := by
  cases port with
  | argument i =>
      rw [Bool.eq_iff_iff]
      simp [observed?, argumentIndex?, isInvalid]
  | _ => rfl

/-- Where nothing is observed no port is valid. -/
theorem Root.isInvalid_zero (port : Root) : port.isInvalid 0 := by
  cases port <;> simp [isInvalid]

/-- What the diagnostic says of ports is so at the call. -/
def Diagnostic.HoldsAt (site : CallSite) : Diagnostic → Prop
  | .invalidViaTypePort port callee registerCount =>
      callee = site.callee.signature ∧ registerCount = site.registerTypes.length ∧
        port.isInvalid registerCount
  | .invalidViaValuePort port callee argumentCount =>
      callee = site.callee.signature ∧ argumentCount = site.constants.length ∧
        port.isInvalid argumentCount
  | .producerWithoutNames _ _ => True

namespace Frame

variable {f : Frame} {site : CallSite} {d : Diagnostic}

/-- The constants that are observed for the frame. -/
def constantsAt (site : CallSite) (f : Frame) : List (Option String) :=
  if f.isProducerDeclaration then [] else site.constants

/-- The diagnostic tells of an anomaly that the frame has at the call. -/
inductive Exhibits (site : CallSite) (f : Frame) : Diagnostic → Prop
  | typePort (port : Root) : port ∈ f.viaTypePorts → port.isInvalid site.registerTypes.length →
      Exhibits site f
        (.invalidViaTypePort port site.callee.signature site.registerTypes.length)
  | valuePort (port : Root) : port ∈ f.viaValuePorts →
      port.isInvalid (f.constantsAt site).length →
      Exhibits site f
        (.invalidViaValuePort port site.callee.signature (f.constantsAt site).length)
  | nameless : f.isProducerDeclaration → f.isCrtex = false →
      Exhibits site f (.producerWithoutNames f.kind f.text)

theorem constantsAt_of_producer (h : f.isProducerDeclaration) : f.constantsAt site = [] :=
  if_pos h

theorem constantsAt_of_ordinary (h : f.isProducerDeclaration = false) :
    f.constantsAt site = site.constants :=
  if_neg (by simp [h])

/-- The anomalies of a frame, listed. -/
def exhibited (site : CallSite) (f : Frame) : List Diagnostic :=
  f.invalidPorts site (f.constantsAt site) ++
    if f.isProducerDeclaration && !f.isCrtex then [.producerWithoutNames f.kind f.text] else []

theorem mem_exhibited_iff : d ∈ f.exhibited site ↔ f.Exhibits site d := by
  simp only [exhibited, invalidPorts, Root.isNone_observed?, List.mem_append, List.mem_map,
    List.mem_filter, SortedSet.mem_toList]
  constructor
  · intro hmem
    rcases hmem with (⟨port, ⟨hport, hinvalid⟩, rfl⟩ | ⟨port, ⟨hport, hinvalid⟩, rfl⟩) | hmem
    · exact .typePort port hport hinvalid
    · exact .valuePort port hport hinvalid
    · split at hmem
      · rename_i hnameless
        rw [Bool.and_eq_true, Bool.not_eq_true'] at hnameless
        rw [List.mem_singleton.1 hmem]
        exact .nameless hnameless.1 hnameless.2
      · cases hmem
  · intro hexhibits
    cases hexhibits with
    | typePort port hport hinvalid => exact .inl (.inl ⟨port, ⟨hport, hinvalid⟩, rfl⟩)
    | valuePort port hport hinvalid => exact .inl (.inr ⟨port, ⟨hport, hinvalid⟩, rfl⟩)
    | nameless hproducer hnames => exact .inr (by simp [hproducer, hnames])

instance (site : CallSite) (f : Frame) : DecidablePred (Exhibits site f) := fun _ =>
  decidable_of_iff _ mem_exhibited_iff

/-- Ports that are told apart are reported apart. -/
theorem nodup_map_filter_ports {report : Root → Diagnostic} (hreport : report.Injective)
    (ports : SortedSet Root) (keep : Root → Bool) :
    ((ports.toList.filter keep).map report).Nodup :=
  (ports.nodup_toList.filter keep).map hreport

theorem nodup_invalidPorts (f : Frame) (site : CallSite) (constants : List (Option String)) :
    (f.invalidPorts site constants).Nodup := by
  rw [invalidPorts, List.nodup_append]
  refine ⟨nodup_map_filter_ports ?_ _ _, nodup_map_filter_ports ?_ _ _, ?_⟩
  · intro port other heq
    cases heq
    rfl
  · intro port other heq
    cases heq
    rfl
  · intro d hd e he heq
    obtain ⟨port, -, rfl⟩ := List.mem_map.1 hd
    obtain ⟨other, -, rfl⟩ := List.mem_map.1 he
    cases heq

theorem nodup_exhibited (site : CallSite) (f : Frame) : (f.exhibited site).Nodup := by
  rw [exhibited, List.nodup_append]
  refine ⟨nodup_invalidPorts f site _, ?_, ?_⟩
  · split
    · exact List.nodup_singleton _
    · exact List.nodup_nil
  · intro d hd e he heq
    have hnameless : e = .producerWithoutNames f.kind f.text := by
      split at he
      · exact List.mem_singleton.1 he
      · cases he
    rw [heq, hnameless, invalidPorts, List.mem_append, List.mem_map, List.mem_map] at hd
    rcases hd with ⟨port, -, h⟩ | ⟨port, -, h⟩ <;> cases h

/-- Of a frame that is near enough all anomalies are reported, and of others none. -/
theorem reports_eq (site : CallSite) (f : Frame) :
    f.reports site = if f.distance < site.maxDistance then f.exhibited site else [] := by
  have hcrosses : f.crosses site ↔ f.distance < site.maxDistance := decide_eq_true_iff
  cases hdeclared : f.isProducerDeclaration with
  | true => simp [reports, producerAnomalies, exhibited, constantsAt, isCrtex, hdeclared, hcrosses]
  | false => simp [reports, anomalies, exhibited, constantsAt, hdeclared, hcrosses]

theorem mem_reports_iff :
    d ∈ f.reports site ↔ f.distance < site.maxDistance ∧ f.Exhibits site d := by
  rw [reports_eq, ← mem_exhibited_iff]
  split <;> simp [*]

theorem nodup_reports (site : CallSite) (f : Frame) : (f.reports site).Nodup := by
  rw [reports_eq]
  split
  · exact nodup_exhibited site f
  · exact List.nodup_nil

/-- A diagnostic is met as often as there are near frames that exhibit what it tells of. -/
theorem count_flatMap_reports (fs : List Frame) (d : Diagnostic) :
    (fs.flatMap (·.reports site)).count d =
      (fs.filter (·.distance < site.maxDistance)).countP (·.Exhibits site d) := by
  rw [List.countP_filter]
  induction fs with
  | nil => rfl
  | cons f fs ih =>
      rw [List.flatMap_cons, List.count_append, ih, (nodup_reports site f).count,
        List.countP_cons, Nat.add_comm]
      simp only [mem_reports_iff, Bool.and_eq_true, decide_eq_true_eq, and_comm]

/-- An anomaly that is told of amiss is that of a producer declaration which asks for a value. -/
theorem Exhibits.holdsAt_or (h : f.Exhibits site d) : d.HoldsAt site ∨
    f.isProducerDeclaration ∧ ∃ port ∈ f.viaValuePorts,
      d = .invalidViaValuePort port site.callee.signature 0 := by
  cases h with
  | typePort port hport hinvalid => exact .inl ⟨rfl, rfl, hinvalid⟩
  | valuePort port hport hinvalid =>
      cases hdeclared : f.isProducerDeclaration with
      | true =>
          rw [constantsAt_of_producer hdeclared]
          exact .inr ⟨rfl, port, hport, rfl⟩
      | false =>
          rw [constantsAt_of_ordinary hdeclared] at hinvalid ⊢
          exact .inl ⟨rfl, rfl, hinvalid⟩
  | nameless hdeclared hnames => exact .inl trivial

/-- A producer declaration exhibits each port for whose value it asks. -/
theorem exhibits_value_of_producer (hdeclared : f.isProducerDeclaration) {port : Root}
    (hport : port ∈ f.viaValuePorts) :
    f.Exhibits site (.invalidViaValuePort port site.callee.signature 0) := by
  have hnone : f.constantsAt site = [] := constantsAt_of_producer hdeclared
  have hinvalid : port.isInvalid (f.constantsAt site).length := by
    rw [hnone]
    exact port.isInvalid_zero
  have hexhibits : f.Exhibits site _ := .valuePort port hport hinvalid
  rw [hnone] at hexhibits
  exact hexhibits

end Frame

namespace Taint

variable {t : Taint} {site : CallSite} {d : Diagnostic}

theorem count_anomalies (t : Taint) (site : CallSite) (d : Diagnostic) :
    (t.anomalies site).count d =
      (t.frames.filter (·.distance < site.maxDistance)).countP (·.Exhibits site d) := by
  rw [(t.anomalies_perm site).count_eq, Frame.count_flatMap_reports]

theorem mem_anomalies_iff : d ∈ t.anomalies site ↔
    ∃ f ∈ t.frames, f.distance < site.maxDistance ∧ f.Exhibits site d := by
  rw [(t.anomalies_perm site).mem_iff, List.mem_flatMap]
  simp only [Frame.mem_reports_iff]

/-- Valid taint crosses a call without a fault, and each anomaly that one of its near frames has
is reported once for this frame, after what was held before. If diagnostics are not collected,
nothing is kept, and the same is behind the call. -/
theorem propagate_accounts (ht : t.Valid) (site : CallSite) (extra : MayAlways) :
    ∃ p ds,
      (∀ d, ds.count d =
        (t.frames.filter (·.distance < site.maxDistance)).countP (·.Exhibits site d)) ∧
      ∀ c, t.propagate site extra c = (.ok p,
        if c.config.collectDiagnostics then { c with diagnostics := c.diagnostics ++ ds }
        else c) := by
  refine ⟨t.propagated site extra, t.anomalies site, fun d => ?_, fun c => ?_⟩
  · exact t.count_anomalies site d
  · exact propagate_of_valid ht site extra c

/-- Two frames ask for the type of one port that is no parameter, and one of them is a producer
without names. A third frame, which asks for the same, is too far. -/
theorem propagate_accounts_of_shared_port :
    let asking : SortedSet Root := .ofList [.result]
    let near := { Frame.sample with viaTypePorts := asking }
    let producer := { Frame.declared ⟨"Source"⟩ (.ofRoot .anchor) with viaTypePorts := asking }
    let far := { near with port := .ofRoot (.argument 0), distance := 5 }
    let t := ofList [near, producer, far]
    let c : Context := ⟨{ PropagationConfig.ofPreset .fast with collectDiagnostics := true }, []⟩
    let ds := (t.propagate .sample .bottom c).2.diagnostics
    t.Valid ∧ ds.count (.invalidViaTypePort .result CallSite.sample.callee.signature 0) = 2 ∧
      ds.count (.producerWithoutNames ⟨"Source"⟩ producer.text) = 1 := by
  intro asking near producer far t c ds
  have ht : t.Valid := valid_ofList _
  obtain ⟨p, es, hcount, hpropagate⟩ := propagate_accounts ht .sample .bottom
  have hds : ds = es := congrArg (·.2.diagnostics) (hpropagate c)
  rw [hds, hcount, hcount]
  exact ⟨ht, by decide, by decide⟩

/-- The producer declarations that are near enough to cross the call. -/
def crossingDeclarations (site : CallSite) (t : Taint) : List Frame :=
  t.frames.filter fun f => f.isProducerDeclaration && f.crosses site

theorem mem_crossingDeclarations {f : Frame} : f ∈ t.crossingDeclarations site ↔
    f ∈ t.frames ∧ f.isProducerDeclaration ∧ f.distance < site.maxDistance := by
  rw [crossingDeclarations, List.mem_filter, Bool.and_eq_true, Frame.crosses, decide_eq_true_iff]

theorem holdsAt_or_of_mem_anomalies (hd : d ∈ t.anomalies site) : d.HoldsAt site ∨
    ∃ f ∈ t.crossingDeclarations site, ∃ port ∈ f.viaValuePorts,
      d = .invalidViaValuePort port site.callee.signature 0 := by
  obtain ⟨f, hf, hnear, hexhibits⟩ := mem_anomalies_iff.1 hd
  refine hexhibits.holdsAt_or.imp_right fun hproducer => ?_
  exact ⟨f, mem_crossingDeclarations.2 ⟨hf, hproducer.1, hnear⟩, hproducer.2⟩

theorem value_mem_anomalies {f : Frame} (hf : f ∈ t.crossingDeclarations site) {port : Root}
    (hport : port ∈ f.viaValuePorts) :
    .invalidViaValuePort port site.callee.signature 0 ∈ t.anomalies site := by
  obtain ⟨hmem, hdeclared, hnear⟩ := mem_crossingDeclarations.1 hf
  exact mem_anomalies_iff.2 ⟨f, hmem, hnear, Frame.exhibits_value_of_producer hdeclared hport⟩

/-- All that is said is so exactly when there are no constants or no producer asks for one. -/
theorem forall_holdsAt_iff : (∀ d ∈ t.anomalies site, d.HoldsAt site) ↔
    site.constants = [] ∨ ∀ f ∈ t.crossingDeclarations site, f.viaValuePorts.isEmpty := by
  constructor
  · intro hall
    refine or_iff_not_imp_left.2 fun hconstants f hf => ?_
    refine SortedSet.isEmpty_iff.2 fun port hport => hconstants ?_
    obtain ⟨-, hnone, -⟩ := hall _ (value_mem_anomalies hf hport)
    exact List.eq_nil_of_length_eq_zero hnone.symm
  · intro hnone d hd
    rcases holdsAt_or_of_mem_anomalies hd with hholds | ⟨f, hf, port, hport, rfl⟩
    · exact hholds
    · rcases hnone with hconstants | hempty
      · exact ⟨rfl, by rw [hconstants, List.length_nil], port.isInvalid_zero⟩
      · exact absurd hport (SortedSet.isEmpty_iff.1 (hempty f hf) port)

/-- No valid port is called invalid exactly when producers ask for the values of none. -/
theorem forall_isInvalid_iff :
    (∀ port callee n, .invalidViaValuePort port callee n ∈ t.anomalies site →
        port.isInvalid site.constants.length) ↔
      ∀ f ∈ t.crossingDeclarations site, ∀ port ∈ f.viaValuePorts,
        port.isInvalid site.constants.length := by
  constructor
  · intro hall f hf port hport
    exact hall port _ 0 (value_mem_anomalies hf hport)
  · intro hinvalid port callee n hd
    rcases holdsAt_or_of_mem_anomalies hd with hholds | ⟨f, hf, other, hother, heq⟩
    · obtain ⟨-, hn, hport⟩ := hholds
      rw [← hn]
      exact hport
    · cases heq
      exact hinvalid f hf port hother

/-- What is reported of valid taint is so at the call, except that of each port for whose value a
producer declaration asks it is said that it is invalid and that there are no constants. -/
theorem propagate_holdsAt_iff (ht : t.Valid) (site : CallSite) (extra : MayAlways) :
    ∃ p ds, (∀ c, t.propagate site extra c = (.ok p, c.report ds)) ∧
      (∀ d ∈ ds, d.HoldsAt site ∨ ∃ f ∈ t.crossingDeclarations site, ∃ port ∈ f.viaValuePorts,
        d = .invalidViaValuePort port site.callee.signature 0) ∧
      ((∀ d ∈ ds, d.HoldsAt site) ↔
        site.constants = [] ∨ ∀ f ∈ t.crossingDeclarations site, f.viaValuePorts.isEmpty) ∧
      ((∀ port callee n, .invalidViaValuePort port callee n ∈ ds →
          port.isInvalid site.constants.length) ↔
        ∀ f ∈ t.crossingDeclarations site, ∀ port ∈ f.viaValuePorts,
          port.isInvalid site.constants.length) := by
  refine ⟨t.propagated site extra, t.anomalies site, fun c => ?_, fun d hd => ?_, ?_, ?_⟩
  · exact propagate_of_valid ht site extra c
  · exact holdsAt_or_of_mem_anomalies hd
  · exact forall_holdsAt_iff
  · exact forall_isInvalid_iff

/-- A frame through another call asks for the value of a port that is no parameter, and a producer
asks for none. -/
theorem propagate_holdsAt_of_ordinary_value :
    let asking := { Frame.sample with viaValuePorts := .ofList [.argument 0, .result] }
    let t := ofList [asking, .sampleProducer]
    let site := { CallSite.sample with constants := [some "GET"] }
    let c : Context := ⟨{ PropagationConfig.ofPreset .fast with collectDiagnostics := true }, []⟩
    let ds := (t.propagate site .bottom c).2.diagnostics
    t.Valid ∧ (∀ d ∈ ds, d.HoldsAt site) ∧
      ds = [.invalidViaValuePort .result site.callee.signature 1] := by
  intro asking t site c ds
  have ht : t.Valid := valid_ofList _
  obtain ⟨p, es, hpropagate, -, hholds, -⟩ := propagate_holdsAt_iff ht site .bottom
  have hds : ds = es := congrArg (·.2.diagnostics) (hpropagate c)
  refine ⟨ht, ?_, by decide⟩
  rw [hds]
  exact hholds.2 (.inr (by decide))

/-- A producer asks for the value of the first parameter, which is observed, and the port is called
invalid. -/
theorem propagate_not_holdsAt_of_producer :
    let asking := { Frame.sampleProducer with viaValuePorts := .ofList [.argument 0] }
    let t := ofList [asking]
    let site := { CallSite.sample with constants := [some "GET"] }
    let c : Context := ⟨{ PropagationConfig.ofPreset .fast with collectDiagnostics := true }, []⟩
    let ds := (t.propagate site .bottom c).2.diagnostics
    t.Valid ∧ ds = [.invalidViaValuePort (.argument 0) site.callee.signature 0] ∧
      (Root.argument 0).isInvalid site.constants.length = false ∧
      ¬ ∀ d ∈ ds, d.HoldsAt site := by
  intro asking t site c ds
  have hds : ds = [.invalidViaValuePort (.argument 0) site.callee.signature 0] := by decide
  refine ⟨valid_ofList _, hds, rfl, fun hall => ?_⟩
  rw [hds] at hall
  obtain ⟨-, hcount, -⟩ := hall _ (List.mem_singleton_self _)
  exact absurd hcount (by decide)

end Taint
end TaintFlow
