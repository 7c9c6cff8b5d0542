import TaintFlow.Proofs.AccessPath.Canonical
import TaintFlow.Proofs.Identity.Readings
import TaintFlow.Proofs.Propagation.Regimes
import TaintFlow.Proofs.Summary.CanonicalForm

/-!
# Loading summaries and the dispatch of methods

A summary mentions methods without word of their dispatch, so a method that is first met in one is
an instance method for good. Who wants to call a static method therefore has to ask for it before
any summary with its signature is loaded. Asked for afterwards it counts as an instance method, and
the canonical forms of its parameters are those of the parameter before.

The two orders make a difference for frames behind a call only where a parameter is put into its
canonical form, and that is done for producer declarations alone.
-/
namespace TaintFlow

/-- The registry after the loading of a summary, whether it succeeds or not. -/
def Registry.load (r : Registry) (j : Json) : Registry := ((Taint.ofJson j).run r).2

def CallSite.calling (site : CallSite) (m : Method) : CallSite := { site with callee := m }

namespace AccessPath

variable {p : AccessPath} {m m' : Method}

theorem argumentText_ne_pred (i : UInt32) :
    argumentText ((i.toNat : Int) - 1) ≠ argumentText i.toNat := by
  intro heq
  have hsame := argumentText_injective heq
  omega

theorem canonicalize_of_not_isArgument (h : p.root.isArgument = false) :
    p.canonicalize m = p.canonicalize m' := by
  obtain ⟨root, path⟩ := p
  cases root <;> first | rfl | cases h

/-- The canonical form of a parameter tells whether the method is static. -/
theorem canonicalize_eq_iff : p.canonicalize m = p.canonicalize m' ↔
    m.isStatic = m'.isStatic ∨ p.root.isArgument = false := by
  constructor
  · intro heq
    obtain ⟨root, path⟩ := p
    cases root with
    | argument i =>
        left
        have helement := congrArg (fun q : AccessPath => q.path.head?.map Name.text) heq
        cases hm : m.isStatic <;> cases hm' : m'.isStatic <;>
          simp [canonicalize, hm, hm'] at helement ⊢
        · exact argumentText_ne_pred i helement
        · exact argumentText_ne_pred i helement.symm
    | _ => exact .inr rfl
  · intro heither
    rcases heither with hsame | hother
    · simp only [canonicalize, hsame]
    · exact canonicalize_of_not_isArgument hother

end AccessPath

namespace Frame

variable {f : Frame} {site : CallSite} {m m' : Method}

/-- Whether the callee is static matters to producers alone, and there to the canonical port. -/
theorem crossProducer?_calling (hsignature : m.signature = m'.signature)
    (h : site.port.canonicalize m = site.port.canonicalize m' ∨
      f.producesAt (site.calling m) = false) :
    f.crossProducer? (site.calling m) = f.crossProducer? (site.calling m') := by
  have hproduces : f.producesAt (site.calling m') = f.producesAt (site.calling m) := by
    simp only [producesAt, resolvedNames, CallSite.calling, hsignature]
    rfl
  rw [crossProducer?_eq, crossProducer?_eq, hproduces]
  rcases h with hport | hnone
  · have hproduced : f.producedAt (site.calling m) = f.producedAt (site.calling m') := by
      simp only [producedAt, atCall, resolvedNames, CallSite.calling, hsignature, hport]
      rfl
    rw [hproduced]
  · rw [hnone]
    rfl

end Frame

namespace Taint

variable {t : Taint} {site : CallSite} {extra : MayAlways} {m m' : Method}

theorem propagated_calling (hsignature : m.signature = m'.signature)
    (h : site.port.canonicalize m = site.port.canonicalize m' ∨
      ∀ f ∈ t.frames, f.isProducerDeclaration → f.producesAt (site.calling m) = false) :
    t.propagated (site.calling m) extra = t.propagated (site.calling m') extra := by
  have hset : ∀ s ∈ t.sets.elements,
      s.propagateWith extra (site.calling m) = s.propagateWith extra (site.calling m') := by
    intro s hs
    have hproducers : s.producers.filterMap (·.crossProducer? (site.calling m)) =
        s.producers.filterMap (·.crossProducer? (site.calling m')) := by
      refine List.filterMap_congr fun f hf => Frame.crossProducer?_calling hsignature ?_
      obtain ⟨hmem, hdeclared⟩ := List.mem_filter.1 hf
      exact h.imp_right fun hnone => hnone f (mem_frames.2 ⟨s, hs, hmem⟩) hdeclared
    have hmerged : Frame.merge? s.kind s.ordinary (site.calling m) (site.calling m).constants =
        Frame.merge? s.kind s.ordinary (site.calling m') (site.calling m').constants := by
      simp only [Frame.merge?, CallSite.calling, hsignature]
      rfl
    simp only [FrameSet.propagateWith, FrameSet.propagate, hproducers, hmerged]
  rw [propagated, propagated, List.map_congr_left hset]

/-- A producer that crosses leaves a frame at the canonical port. -/
theorem propagated_calling_ne (ht : t.Valid) {f : Frame} (hf : f ∈ t.frames)
    (hdeclared : f.isProducerDeclaration) (hproduces : f.producesAt (site.calling m))
    (hport : site.port.canonicalize m ≠ site.port.canonicalize m') :
    t.propagated (site.calling m) extra ≠ t.propagated (site.calling m') extra := by
  intro heq
  obtain ⟨s, hs, hmem⟩ := mem_frames.1 hf
  have hvalid : s.Valid := ht.2 s hs
  have hget : t.get? s.kind = some s := (valid_iff.1 ht).get?_groupKey hs
  have hcrosses : f ∈ s.crossingProducers (site.calling m) :=
    FrameSet.mem_crossingProducers.2 ⟨hmem, hdeclared, hproduces⟩
  have hframe := congrArg (frame? · s.kind (.producerAt (site.calling m))) heq
  rw [frame?_propagated_eq ht, frame?_propagated_eq ht, hget, Option.bind_some, Option.bind_some,
    FrameSet.get?_producerAt hvalid, if_neg (List.ne_nil_of_mem hcrosses),
    FrameSet.get?_propagateWith hvalid, FrameSet.get?_propagate hvalid,
    if_neg fun hkey => hport (congrArg FrameKey.port hkey),
    if_neg fun hkey => Bool.false_ne_true (congrArg FrameKey.isCrtex hkey).symm] at hframe
  cases hframe

/-- What is written of the taint behind a call shows whether the method is static exactly when the
port is put into another form and some producer leaves a frame there. -/
theorem toJson_propagated_calling_iff (ht : t.Valid) (hsignature : m.signature = m'.signature) :
    (t.propagated (site.calling m') extra).toJson = (t.propagated (site.calling m) extra).toJson ↔
      site.port.canonicalize m' = site.port.canonicalize m ∨
        ∀ f ∈ t.frames, f.isProducerDeclaration → f.producesAt (site.calling m) = false := by
  rw [toJson_eq_iff (valid_propagated ht _ extra) (valid_propagated ht _ extra)]
  constructor
  · intro heq
    by_contra hneither
    obtain ⟨hne, hproduces⟩ := not_or.1 hneither
    simp only [not_forall, Bool.not_eq_false] at hproduces
    obtain ⟨f, hf, hdeclared, hproduces⟩ := hproduces
    exact propagated_calling_ne ht hf hdeclared hproduces (Ne.symm hne) heq.symm
  · intro heither
    exact (propagated_calling hsignature (heither.imp_left Eq.symm)).symm

end Taint

namespace Registry

variable {r : Registry} {s : Signature}

/-- Loading does the same in all registries. -/
theorem exists_load_eq (j : Json) : ∃ ms outcome,
    (∀ r, (Taint.ofJson j).run r = (outcome, r.noteAll ms)) ∧
      ∀ c, .method c ∈ ms → c.isStatic = false := by
  obtain ⟨ms, outcome, hload, -⟩ := Reading.notes_taint j
  exact ⟨ms, outcome, hload.run_eq, hload.isStatic_eq_false⟩

/-- A method that is known before the loading stays as it is. -/
theorem method?_load_of_known {m : Method} (h : r.method? s = some m) (j : Json) :
    (r.load j).method? s = some m := by
  obtain ⟨ms, outcome, hload, -⟩ := exists_load_eq j
  rw [load, hload, method?_noteAll, h]
  rfl

/-- A method that is first met in a summary is an instance method. -/
theorem method?_load_of_unknown (h : r.method? s = none) {j : Json} {m : Method}
    (hm : (r.load j).method? s = some m) : m = ⟨s, false⟩ := by
  obtain ⟨ms, outcome, hload, hinstance⟩ := exists_load_eq j
  rw [load, hload, method?_noteAll, h, Option.none_or] at hm
  have hmem := Mention.mem_filterMap_method?.1 (List.mem_of_find?_eq_some hm)
  have hsignature : m.signature = s := of_decide_eq_true (List.find?_some hm :)
  exact Method.mk.injEq .. ▸ ⟨hsignature, hinstance m hmem⟩

/-- The method that is given out after the loading. -/
theorem mentionMethod_load (h : r.method? s = none) (j : Json) (st : Bool) :
    ((r.load j).mentionMethod s st).1 = ⟨s, st && ((r.load j).method? s).isNone⟩ := by
  cases hknown : (r.load j).method? s with
  | none => rw [mentionMethod_of_unknown st hknown, Option.isNone_none, Bool.and_true]
  | some m =>
      rw [mentionMethod_of_known st hknown, Option.isNone_some, Bool.and_false]
      exact method?_load_of_unknown h hknown

end Registry

theorem AccessPath.toJson_injective : Function.Injective AccessPath.toJson := by
  intro p q heq
  have hread := ofText_text p
  rw [Json.string.inj heq, ofText_text q] at hread
  exact (Except.ok.inj hread).symm

/-- Asking for a method before or after a summary is loaded is the same unless it is static and the
summary mentions it. Then parameters have other canonical forms, and what is behind a call to the
method is another taint if the port is a parameter and some producer leaves a frame. -/
theorem Taint.propagate_load_iff {r : Registry} {s : Signature} (hr : r.method? s = none) (j : Json)
    (st : Bool) {t : Taint} (ht : t.Valid) (site : CallSite) (extra : MayAlways) (c : Context) :
    let early := r.mentionMethod s st
    let late := (r.load j).mentionMethod s st
    ((ofJson j).run early.2).1 = ((ofJson j).run r).1 ∧
      (early.2.load j).method? s = some early.1 ∧
      (late.1 = early.1 ↔ st = false ∨ (r.load j).method? s = none) ∧
      (∀ p : AccessPath, (p.canonicalize late.1).toJson = (p.canonicalize early.1).toJson ↔
        late.1 = early.1 ∨ p.root.isArgument = false) ∧
      ∃ u v d, t.propagate (site.calling early.1) extra c = (.ok u, d) ∧
        t.propagate (site.calling late.1) extra c = (.ok v, d) ∧
        (v.toJson = u.toJson ↔ late.1 = early.1 ∨ site.port.root.isArgument = false ∨
          ∀ f ∈ t.frames, f.isProducerDeclaration → f.producesAt (site.calling early.1) = false) := by
  intro early late
  have hearly : early.1 = ⟨s, st⟩ := Registry.mentionMethod_of_unknown st hr
  have hlate : late.1 = ⟨s, st && ((r.load j).method? s).isNone⟩ :=
    Registry.mentionMethod_load hr j st
  have hknown : early.2.method? s = some early.1 := by
    rw [Registry.method?_mentionMethod, if_pos rfl]
  have hdispatch : late.1 = early.1 ↔ late.1.isStatic = early.1.isStatic := by
    rw [hearly, hlate, Method.mk.injEq, eq_self, true_and]
  have hport (p : AccessPath) : p.canonicalize late.1 = p.canonicalize early.1 ↔
      late.1 = early.1 ∨ p.root.isArgument = false := by
    rw [hdispatch]
    exact AccessPath.canonicalize_eq_iff
  refine ⟨?_, Registry.method?_load_of_known hknown j, ?_, fun p => ?_, ?_⟩
  · obtain ⟨ms, outcome, hload, -⟩ := Registry.exists_load_eq j
    rw [hload, hload]
  · rw [hdispatch, hearly, hlate]
    cases st <;> simp
  · rw [AccessPath.toJson_injective.eq_iff]
    exact hport p
  · have hreports : t.anomalies (site.calling late.1) = t.anomalies (site.calling early.1) := by
      rw [hearly, hlate]
      rfl
    refine ⟨t.propagated (site.calling early.1) extra, t.propagated (site.calling late.1) extra, _,
      propagate_of_valid ht _ extra c, ?_, ?_⟩
    · rw [propagate_of_valid ht, hreports]
    · have hsignature : early.1.signature = late.1.signature := by rw [hearly, hlate]
      rw [toJson_propagated_calling_iff ht hsignature, hport, or_assoc]

/-- A summary with one declaration that comes from `origin`. -/
def Json.sampleSummary (origin : String) : Json :=
  .array [.object [("callee_port", .string "Leaf"), ("kind", .string "Sink"),
    ("origins", .array [.string origin])]]

namespace Taint

/-- The loading of a summary that mentions another method makes no difference. -/
theorem propagate_load_of_unmentioned :
    let s : Signature := ⟨"LParser;.parse:(I)V"⟩
    let t := ofList [.sampleProducer]
    let c : Context := ⟨.ofPreset .fast, []⟩
    let early := (Registry.empty.mentionMethod s true).1
    let late := ((Registry.empty.load (.sampleSummary "LOther;.run:()V")).mentionMethod s true).1
    Registry.empty.method? s = none ∧ t.Valid ∧
      ∃ u v d, t.propagate (CallSite.sample.calling early) .bottom c = (.ok u, d) ∧
        t.propagate (CallSite.sample.calling late) .bottom c = (.ok v, d) ∧ v.toJson = u.toJson := by
  intro s t c early late
  have ht : t.Valid := valid_ofList _
  obtain ⟨-, -, hsame, -, u, v, d, hu, hv, hjson⟩ := propagate_load_iff (r := .empty) (s := s) rfl
    (.sampleSummary "LOther;.run:()V") true ht .sample .bottom c
  have hunknown : (Registry.empty.load (.sampleSummary "LOther;.run:()V")).method? s = none := by
    decide +kernel
  exact ⟨rfl, ht, u, v, d, hu, hv, hjson.2 (.inl (hsame.2 (.inr hunknown)))⟩

/-- A static method that is first met in a summary has other canonical ports, and other frames stand
behind a call to it. -/
theorem propagate_load_of_mentioned :
    let s : Signature := ⟨"LParser;.parse:(I)V"⟩
    let t := ofList [.sampleProducer]
    let c : Context := ⟨.ofPreset .fast, []⟩
    let early := (Registry.empty.mentionMethod s true).1
    let late := ((Registry.empty.load (.sampleSummary s.text)).mentionMethod s true).1
    Registry.empty.method? s = none ∧ t.Valid ∧
      ((CallSite.sample.port).canonicalize late).toJson ≠
        ((CallSite.sample.port).canonicalize early).toJson ∧
      ∃ u v d, t.propagate (CallSite.sample.calling early) .bottom c = (.ok u, d) ∧
        t.propagate (CallSite.sample.calling late) .bottom c = (.ok v, d) ∧ v.toJson ≠ u.toJson := by
  intro s t c early late
  have ht : t.Valid := valid_ofList _
  have hport : CallSite.sample.port.canonicalize late ≠ CallSite.sample.port.canonicalize early := by
    decide +kernel
  have hframes : t.propagated (CallSite.sample.calling late) .bottom ≠
      t.propagated (CallSite.sample.calling early) .bottom := by decide +kernel
  have hreports : t.anomalies (CallSite.sample.calling late) = [] := by decide +kernel
  have hreports' : t.anomalies (CallSite.sample.calling early) = [] := by decide +kernel
  refine ⟨rfl, ht, AccessPath.toJson_injective.ne hport,
    t.propagated (CallSite.sample.calling early) .bottom,
    t.propagated (CallSite.sample.calling late) .bottom, c.report [], ?_, ?_, ?_⟩
  · rw [propagate_of_valid ht, hreports']
  · rw [propagate_of_valid ht, hreports]
  · rw [Ne, toJson_eq_iff (valid_propagated ht _ _) (valid_propagated ht _ _)]
    exact hframes

end Taint
end TaintFlow
