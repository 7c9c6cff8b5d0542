import TaintFlow.Proofs.Identity.Mentions
import TaintFlow.Proofs.Propagation.Features
import TaintFlow.Proofs.Validity.Within

/-!
# The identities that values hold

Names, signatures and positions occur inside paths, features, frames and taint. Joining frames, and
so collecting them, brings in no identity that none of the frames holds.
-/
namespace TaintFlow

def AccessPath.mentions (p : AccessPath) : List Mention := p.path.map fun e => .name e.any

def FeatureSet.mentions (s : FeatureSet) : List Mention := s.toList.map fun x => .name x.any

def MayAlways.mentions (m : MayAlways) : List Mention :=
  FeatureSet.mentions m.may ++ FeatureSet.mentions m.always

namespace Frame

/-- The identities in all parts of a frame but its kind and its port. -/
def partMentions (f : Frame) : List Mention :=
  f.callee.toList.map Signature.mention ++ f.fieldCallee.toList.map (fun n => .name n.any)
    ++ f.callPosition.toList.map .position ++ f.origins.toList.map Signature.mention
    ++ f.fieldOrigins.toList.map (fun n => .name n.any) ++ f.inferred.mentions
    ++ f.locallyInferred.mentions ++ FeatureSet.mentions f.userFeatures
    ++ f.localPositions.toList.map .position

def mentions (f : Frame) : List Mention :=
  .name f.kind.any :: (f.port.mentions ++ f.partMentions)

theorem mem_partMentions {f : Frame} {i : Mention} : i ∈ f.partMentions ↔
    (∃ s ∈ f.callee, i = s.mention) ∨ (∃ n ∈ f.fieldCallee, i = .name n.any) ∨
      (∃ p ∈ f.callPosition, i = .position p) ∨ (∃ s ∈ f.origins, i = s.mention) ∨
      (∃ n ∈ f.fieldOrigins, i = .name n.any) ∨ i ∈ f.inferred.mentions ∨
      i ∈ f.locallyInferred.mentions ∨ i ∈ FeatureSet.mentions f.userFeatures ∨
      ∃ p ∈ f.localPositions, i = .position p := by
  simp only [partMentions, List.mem_append, List.mem_map, Option.mem_toList, SortedSet.mem_toList,
    or_assoc, Option.mem_def, eq_comm]

end Frame

def Taint.mentions (t : Taint) : List Mention := t.frames.flatMap Frame.mentions

section Union

variable {α : Type} [Ord α] [Std.TransOrd α] [Std.LawfulEqOrd α] {s t : SortedSet α} {m : Mention}

theorem SortedSet.mem_map_union {mention : α → Mention} :
    m ∈ (s.union t).toList.map mention ↔ m ∈ s.toList.map mention ∨ m ∈ t.toList.map mention := by
  simp only [List.mem_map, mem_toList, mem_union, or_and_right, exists_or]

end Union

theorem MayAlways.mem_mentions_join {m e : MayAlways} {i : Mention} (hi : i ∈ (m.join e).mentions) :
    i ∈ m.mentions ∨ i ∈ e.mentions := by
  cases m with
  | bottom => cases e <;> exact .inr hi
  | sets may always =>
      cases e with
      | bottom => exact .inl hi
      | sets may' always' =>
          rcases List.mem_append.1 hi with hmay | halways
          · rcases SortedSet.mem_map_union.1 hmay with hmay | hmay
            · exact .inl (List.mem_append_left _ hmay)
            · exact .inr (List.mem_append_left _ hmay)
          · obtain ⟨x, hx, rfl⟩ := List.mem_map.1 halways
            have hboth : x ∈ always ∧ x ∈ always' := SortedSet.mem_inter.1 hx
            exact .inl (List.mem_append_right _ (List.mem_map.2 ⟨x, hboth.1, rfl⟩))

theorem Frame.mem_mentions_join {f g : Frame} {i : Mention} (hi : i ∈ (f.join g).mentions) :
    i ∈ f.mentions ∨ i ∈ g.mentions := by
  have hinferred := MayAlways.mem_mentions_join (m := f.inferred) (e := g.inferred) (i := i)
  have hlocally :=
    MayAlways.mem_mentions_join (m := f.locallyInferred) (e := g.locallyInferred) (i := i)
  simp only [mentions, partMentions, join, FeatureSet.mentions, SortedSet.mem_map_union,
    List.mem_cons, List.mem_append] at hi ⊢
  grind

namespace Taint

/-- Collected frames hold no identity that was not in one of them. -/
theorem mem_mentions_ofList {fs : List Frame} {i : Mention} (hi : i ∈ (ofList fs).mentions) :
    ∃ f ∈ fs, i ∈ f.mentions := by
  by_contra hnone
  have hclosed : Frame.JoinClosed fun f => i ∉ f.mentions := by
    intro f g hf hg hjoin
    exact (Frame.mem_mentions_join hjoin).elim hf hg
  have hfs : ∀ f ∈ fs, i ∉ f.mentions := fun f hf hheld => hnone ⟨f, hf, hheld⟩
  obtain ⟨f, hf, hheld⟩ := List.mem_flatMap.1 hi
  exact (within_ofList hclosed hfs).of_mem hf hheld

end Taint
end TaintFlow
