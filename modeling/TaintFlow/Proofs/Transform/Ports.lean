import TaintFlow.Proofs.Propagation.Regimes
import TaintFlow.Proofs.Transform.Structural

/-!
# The depth of extended ports

A port is extended by one element as long as it has fewer elements than `maxDepth`. A port that is
deeper already is left alone: it is not cut back. So the ports of extended frames are the old ones
with the element behind them, of which the first elements are kept, exactly as long as no old port
is deeper than `maxDepth`. Such ports are given by declarations, and the canonical form of a port of
full depth is one, because the old root comes in front of the fields.
-/
namespace TaintFlow

namespace AccessPath

/-- The port with an element behind it, cut off behind its first `maxDepth` elements. -/
def extended (e : PathElement) (p : AccessPath) : AccessPath :=
  ⟨p.root, (p.path ++ [e]).take maxDepth⟩

variable {p : AccessPath} {e : PathElement}

theorem length_path_extended_le (e : PathElement) (p : AccessPath) :
    (p.extended e).path.length ≤ maxDepth := List.length_take_le _ _

theorem append_of_le (h : p.path.length ≤ maxDepth) : p.append e = p.extended e := by
  unfold append extended
  split
  · rename_i hlt
    have hall : (p.path ++ [e]).length ≤ maxDepth := by
      rw [List.length_append, List.length_singleton]
      exact hlt
    rw [List.take_of_length_le hall]
  · rename_i hnot
    have hlength : p.path.length = maxDepth := by omega
    rw [List.take_append_of_le_length hlength.ge, List.take_of_length_le h]

theorem append_of_lt (h : maxDepth < p.path.length) : p.append e = p :=
  if_neg (by omega)

theorem append_eq_ite (e : PathElement) (p : AccessPath) :
    p.append e = if p.path.length ≤ maxDepth then p.extended e else p := by
  split
  · rename_i hshort
    exact append_of_le hshort
  · rename_i hdeep
    exact append_of_lt (by omega)

end AccessPath

namespace Taint

variable {t : Taint} {element : PathElement} {p : Kind → Bool}

theorem kind_portChange (f : Frame) : (portChange element p f.kind f).kind = f.kind := by
  unfold portChange
  split <;> rfl

theorem port_portChange (f : Frame) : (portChange element p f.kind f).port =
    if p f.kind ∧ f.port.path.length ≤ AccessPath.maxDepth then f.port.extended element
    else f.port := by
  unfold portChange
  by_cases hkind : p f.kind
  · rw [if_pos hkind]
    simp only [hkind, true_and]
    exact AccessPath.append_eq_ite element f.port
  · simp [hkind]

/-- Under each kind there are the old ports of that kind. They are extended if the kind is one of
those meant, unless they are deeper than `maxDepth`. -/
theorem exists_mem_appendPort_iff (ht : t.Valid) {kind : Kind} {port : AccessPath} :
    (∃ g ∈ (t.appendPort element p).frames, g.kind = kind ∧ g.port = port) ↔
      ∃ f ∈ t.frames, f.kind = kind ∧ port =
        if p kind ∧ f.port.path.length ≤ AccessPath.maxDepth then f.port.extended element
        else f.port := by
  have hmem (g : Frame) :
      g ∈ t.frames.flatMap (Frame.replace fun kind _ => [portChange element p kind]) ↔
        ∃ f ∈ t.frames, portChange element p f.kind f = g := by
    simp only [List.mem_flatMap, Frame.replace, List.map_singleton, List.mem_singleton, eq_comm]
  rw [appendPort_eq_expand ht]
  refine (exists_mem_frames_ofList_iff (fun k key => k = kind ∧ key.port = port) _).trans ?_
  simp only [hmem]
  constructor
  · intro hfound
    obtain ⟨_, ⟨f, hf, rfl⟩, hkind, hport⟩ := hfound
    rw [kind_portChange] at hkind
    refine ⟨f, hf, hkind, ?_⟩
    rw [← hport, ← hkind]
    exact port_portChange f
  · intro hfound
    obtain ⟨f, hf, rfl, rfl⟩ := hfound
    exact ⟨_, ⟨f, hf, rfl⟩, kind_portChange f, port_portChange f⟩

/-- A frame of a kind whose ports are extended has an old port of its kind with the element behind
it, of which the first `maxDepth` elements are kept. -/
def Extends (element : PathElement) (t : Taint) (g : Frame) : Prop :=
  g.port.path.length ≤ AccessPath.maxDepth ∧
    ∃ f ∈ t.frames, f.kind = g.kind ∧ g.port = f.port.extended element

/-- The ports of the frames whose kinds are meant are extended and bounded in depth exactly when
none of them is too deep beforehand; one that is too deep stays as it is. -/
theorem appendPort_truncates_iff (ht : t.Valid) (element : PathElement) (p : Kind → Bool) :
    (∀ kind port, (∃ g ∈ (t.appendPort element p).frames, g.kind = kind ∧ g.port = port) ↔
      ∃ f ∈ t.frames, f.kind = kind ∧ port =
        if p kind ∧ f.port.path.length ≤ AccessPath.maxDepth then f.port.extended element
        else f.port) ∧
      ((∀ g ∈ (t.appendPort element p).frames, p g.kind → Extends element t g) ↔
        ∀ f ∈ t.frames, p f.kind → f.port.path.length ≤ AccessPath.maxDepth) := by
  refine ⟨fun kind port => exists_mem_appendPort_iff ht, fun hall f hf hp => ?_,
    fun hshort g hg hp => ?_⟩
  · by_contra hdeep
    have hstays : f.port = if p f.kind ∧ f.port.path.length ≤ AccessPath.maxDepth
        then f.port.extended element else f.port := by
      rw [if_neg fun hboth => hdeep hboth.2]
    obtain ⟨g, hg, hkind, hport⟩ := (exists_mem_appendPort_iff ht).2 ⟨f, hf, rfl, hstays⟩
    have hbound := (hall g hg (hkind ▸ hp)).1
    rw [hport] at hbound
    exact hdeep hbound
  · obtain ⟨f, hf, hkind, hport⟩ := (exists_mem_appendPort_iff ht).1 ⟨g, hg, rfl, rfl⟩
    rw [← hkind] at hp hport
    rw [if_pos ⟨hp, hshort f hf hp⟩] at hport
    refine ⟨?_, f, hf, hkind, hport⟩
    rw [hport]
    exact AccessPath.length_path_extended_le element f.port

/-- A port of full depth is cut back, and then falls together with the shorter one that is
extended. -/
theorem appendPort_truncates_of_full_depth :
    let field : PathElement := ⟨"next"⟩
    let short : Frame := .declared ⟨"K"⟩ ⟨.result, [field, field, field]⟩
    let full : Frame := .declared ⟨"K"⟩ ⟨.result, [field, field, field, field]⟩
    let t := ofList [short, full]
    t.Valid ∧ (∀ f ∈ t.frames, true → f.port.path.length ≤ AccessPath.maxDepth) ∧
      (∀ g ∈ (t.appendPort field fun _ => true).frames, true → Extends field t g) ∧
      (t.appendPort field fun _ => true).frames.length = 1 := by
  intro field short full t
  have ht : t.Valid := valid_ofList _
  have hshort : ∀ f ∈ t.frames, true → f.port.path.length ≤ AccessPath.maxDepth := by decide
  have hextends := (appendPort_truncates_iff ht field fun _ => true).2.2 hshort
  exact ⟨ht, hshort, hextends, by decide⟩

/-- A producer that is called at a parameter with four fields has a port of five elements behind the
call, and keeps them all when a field is appended. -/
theorem appendPort_not_truncated_of_canonical_port :
    let site : CallSite := { CallSite.sample with
      port := ⟨.argument 1, [⟨"a"⟩, ⟨"b"⟩, ⟨"c"⟩, ⟨"d"⟩]⟩ }
    let t := (ofList [.sampleProducer]).propagated site .bottom
    ¬∀ g ∈ (t.appendPort ⟨"e"⟩ fun _ => true).frames, true → Extends ⟨"e"⟩ t g := by
  intro site t hall
  have hdeep : ∃ g ∈ (t.appendPort ⟨"e"⟩ fun _ => true).frames, g.port.path.length = 5 := by
    decide +kernel
  obtain ⟨g, hg, hlength⟩ := hdeep
  have hbound : g.port.path.length ≤ 4 := (hall g hg rfl).1
  omega

end Taint
end TaintFlow
