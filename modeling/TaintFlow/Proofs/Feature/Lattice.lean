import TaintFlow.Proofs.Feature.WellFormed

/-!
# Well-formed features are a lattice

Joins of features are least upper bounds on all values, and meets are lower bounds on all values, but
meets are greatest lower bounds only among the well-formed ones: a value with an always-feature that
is not a may-feature is not below its meet with itself. Well-formed values are closed under both, so
they are a lattice by themselves.

The meet is bottom where the operands contradict each other. That is so when nothing well formed but
bottom is below both, and it can be told from the features: what always holds of one operand may not
hold of the other.
-/
namespace TaintFlow
open AbstractDomain

/-- The elements that satisfy `p` are a lattice: besides joins that are least upper bounds they have
meets that are greatest lower bounds, and narrowing gives the meet. -/
structure LatticeLaws {α : Type} [AbstractDomain α] (p : α → Prop) : Prop extends JoinLaws p where
  meet_mem {a b : α} : p a → p b → p (meet a b)
  meet_leq_left {a b : α} : p a → p b → leq (meet a b) a
  meet_leq_right {a b : α} : p a → p b → leq (meet a b) b
  leq_meet {a b c : α} : p a → p b → p c → leq c a → leq c b → leq c (meet a b)
  narrow_eq {a b : α} : p a → p b → narrow a b = meet a b

section Bottom

variable {α : Type} [AbstractDomain α] {p : α → Prop} {a b : α}

/-- Only bottom elements are below a bottom element. -/
theorem JoinLaws.isBottom_of_leq (L : JoinLaws p) (ha : p a) (hb : p b) (hle : leq a b)
    (hbottom : isBottom b) : isBottom a := by
  have hboth := L.isBottom_join ha hb
  rw [L.join_eq_right ha hb hle, hbottom, Bool.and_true] at hboth
  exact hboth.symm

/-- The meet is bottom exactly when all lower bounds of its operands are. -/
theorem LatticeLaws.isBottom_meet_iff (L : LatticeLaws p) (ha : p a) (hb : p b) :
    isBottom (meet a b) ↔ ∀ c, p c → leq c a → leq c b → isBottom c := by
  have hmeet := L.meet_mem ha hb
  constructor
  · intro hbottom c hc hca hcb
    exact L.isBottom_of_leq hc hmeet (L.leq_meet ha hb hc hca hcb) hbottom
  · intro hall
    exact hall _ hmeet (L.meet_leq_left ha hb) (L.meet_leq_right ha hb)

end Bottom

namespace MayAlways

variable {a b : MayAlways}

theorem sets_ne_bottom (may always : FeatureSet) : sets may always ≠ bottom := by
  intro heq
  cases heq

theorem isBottom_iff : a.isBottom ↔ a = bottom := by
  cases a with
  | bottom => exact iff_of_true rfl rfl
  | sets may always => exact iff_of_false Bool.false_ne_true (sets_ne_bottom may always)

theorem latticeLaws : LatticeLaws WellFormed where
  toJoinLaws := joinLaws.restrict (fun _ => trivial) WellFormed.join
  meet_mem _ _ := wellFormed_meet _ _
  meet_leq_left _ _ := meet_leq_left _ _
  meet_leq_right _ _ := meet_leq_right _ _
  leq_meet _ _ hc := leq_meet hc
  narrow_eq _ _ := rfl

theorem join_bottom (a : MayAlways) : a.join bottom = a := by
  cases a <;> rfl

theorem bottom_join (a : MayAlways) : bottom.join a = a := by
  cases a <;> rfl

theorem meet_sets_eq_bottom_iff {may always may' always' : FeatureSet} :
    (sets may always).meet (sets may' always') = bottom ↔
      ¬ ∀ x, x ∈ always ∨ x ∈ always' → x ∈ may ∧ x ∈ may' := by
  have hconsistent : (always.union always').isSubset (may.inter may') ↔
      ∀ x, x ∈ always ∨ x ∈ always' → x ∈ may ∧ x ∈ may' := by
    simp only [SortedSet.isSubset_iff, SortedSet.mem_union, SortedSet.mem_inter]
  rw [← hconsistent]
  simp only [meet]
  split
  · rename_i hkept
    exact iff_of_false (sets_ne_bottom _ _) (not_not_intro hkept)
  · rename_i hgivenUp
    exact iff_of_true rfl hgivenUp

/-- What always holds of a well-formed operand may hold of it, so that only the other operand can
contradict it. -/
theorem meet_eq_bottom_iff_exists (ha : a.WellFormed) (hb : b.WellFormed) (hsome : a ≠ bottom)
    (hsome' : b ≠ bottom) :
    a.meet b = bottom ↔ (∃ x ∈ a.always, x ∉ b.may) ∨ ∃ x ∈ b.always, x ∉ a.may := by
  cases a with
  | bottom => exact absurd rfl hsome
  | sets may always =>
      cases b with
      | bottom => exact absurd rfl hsome'
      | sets may' always' =>
          have hsplit : (∀ x, x ∈ always ∨ x ∈ always' → x ∈ may ∧ x ∈ may') ↔
              (∀ x ∈ always, x ∈ may') ∧ ∀ x ∈ always', x ∈ may := by
            constructor
            · intro hall
              exact ⟨fun x hx => (hall x (.inl hx)).2, fun x hx => (hall x (.inr hx)).1⟩
            · intro hacross x hx
              rcases hx with hx | hx
              · exact ⟨ha x hx, hacross.1 x hx⟩
              · exact ⟨hacross.2 x hx, hb x hx⟩
          rw [meet_sets_eq_bottom_iff, hsplit, Classical.not_and_iff_not_or_not]
          simp only [Classical.not_forall, exists_prop]
          rfl

/-- Well-formed features are a lattice in which bottom is the identity of the join. The meet of two of
them is bottom exactly when no other well-formed value is below both, and for values that are not
bottom exactly when some feature always holds of the one and may not hold of the other. -/
theorem wellFormed_isLattice :
    LatticeLaws WellFormed ∧
      (∀ a : MayAlways, a.WellFormed → a.join bottom = a ∧ bottom.join a = a) ∧
      (∀ a b : MayAlways, a.WellFormed → b.WellFormed →
        (a.meet b = bottom ↔ ¬ ∃ c, c.WellFormed ∧ c ≠ bottom ∧ c.leq a ∧ c.leq b)) ∧
      ∀ a b : MayAlways, a.WellFormed → b.WellFormed → a ≠ bottom → b ≠ bottom →
        (a.meet b = bottom ↔ (∃ x ∈ a.always, x ∉ b.may) ∨ ∃ x ∈ b.always, x ∉ a.may) := by
  refine ⟨latticeLaws, fun a _ => ⟨join_bottom a, bottom_join a⟩, fun a b ha hb => ?_, ?_⟩
  · rw [← isBottom_iff]
    refine (latticeLaws.isBottom_meet_iff ha hb).trans ?_
    constructor
    · rintro hall ⟨c, hc, hsome, hca, hcb⟩
      exact hsome (isBottom_iff.1 (hall c hc hca hcb))
    · intro hnone c hc hca hcb
      refine isBottom_iff.2 (Classical.byContradiction fun hsome => ?_)
      exact hnone ⟨c, hc, hsome, hca, hcb⟩
  · exact fun a b => meet_eq_bottom_iff_exists

/-- Two values that are certain of one feature have it in common. A third one, of which this feature
cannot hold, contradicts the first although they share a may-feature. -/
theorem wellFormed_isLattice_of_contradiction :
    let a : MayAlways := .ofSets (.ofList [⟨"seen"⟩]) (.ofList [⟨"checked"⟩])
    let b : MayAlways := .ofSets (.ofList [⟨"logged"⟩]) (.ofList [⟨"checked"⟩])
    let below : MayAlways := .ofAlways (.ofList [⟨"checked"⟩])
    let above : MayAlways := .ofMay (.ofList [⟨"seen"⟩, ⟨"logged"⟩, ⟨"checked"⟩])
    let d : MayAlways := .ofMay (.ofList [⟨"seen"⟩])
    a.WellFormed ∧ b.WellFormed ∧ below.WellFormed ∧ above.WellFormed ∧ d.WellFormed ∧
      a.leq above ∧ b.leq above ∧ (a.join b).leq above ∧ a.join .bottom = a ∧
      below.leq a ∧ below.leq b ∧ below.leq (a.meet b) ∧ a.meet b ≠ .bottom ∧
      (∃ x ∈ a.always, x ∉ d.may) ∧ a.meet d = .bottom ∧
      ¬ ∃ c : MayAlways, c.WellFormed ∧ c ≠ .bottom ∧ c.leq a ∧ c.leq d := by
  intro a b below above d
  have ha : a.WellFormed := by decide
  have hb : b.WellFormed := by decide
  have hbelow : below.WellFormed := by decide
  have habove : above.WellFormed := by decide
  have hd : d.WellFormed := by decide
  have hau : a.leq above := by decide
  have hbu : b.leq above := by decide
  have hla : below.leq a := by decide
  have hlb : below.leq b := by decide
  have hacross : ∃ x ∈ a.always, x ∉ d.may := ⟨⟨"checked"⟩, by decide, by decide⟩
  obtain ⟨laws, hidentity, hshared, hcontradicts⟩ := wellFormed_isLattice
  have hkept : a.meet b ≠ .bottom := fun heq =>
    (hshared a b ha hb).1 heq ⟨below, hbelow, sets_ne_bottom _ _, hla, hlb⟩
  have hgivenUp : a.meet d = .bottom :=
    (hcontradicts a d ha hd (sets_ne_bottom _ _) (sets_ne_bottom _ _)).2 (.inl hacross)
  exact ⟨ha, hb, hbelow, habove, hd, hau, hbu, laws.join_leq ha hb habove hau hbu,
    (hidentity a ha).1, hla, hlb, laws.leq_meet ha hb hbelow hla hlb, hkept, hacross, hgivenUp,
    (hshared a d ha hd).1 hgivenUp⟩

end MayAlways
end TaintFlow
