import TaintFlow.Domain

/-!
# Laws of joins

The laws of a join-semilattice, for those elements of a domain that satisfy a predicate `p`. The
predicate is what makes a value well built: frames of one kind under one key, sets whose elements
stand under their own keys. A domain may hold other values, and no law is claimed for them.

Values of the library are kept in one form only, so elements that are below each other are the same
value, and the equality of a domain decides equality of values.
-/
namespace TaintFlow
open AbstractDomain

/-- The elements that satisfy `p` are partially ordered by `leq`, `join` is their least upper bound,
and widening gives the join. Bottom elements are below all, and only they join to bottom. -/
structure JoinLaws {α : Type} [AbstractDomain α] (p : α → Prop) : Prop where
  leq_refl {a : α} : p a → leq a a
  leq_trans {a b c : α} : p a → p b → p c → leq a b → leq b c → leq a c
  leq_antisymm {a b : α} : p a → p b → leq a b → leq b a → a = b
  equals_iff {a b : α} : p a → p b → (equals a b ↔ a = b)
  join_mem {a b : α} : p a → p b → p (join a b)
  leq_join_left {a b : α} : p a → p b → leq a (join a b)
  leq_join_right {a b : α} : p a → p b → leq b (join a b)
  join_leq {a b c : α} : p a → p b → p c → leq a c → leq b c → leq (join a b) c
  widen_eq {a b : α} : p a → p b → widen a b = join a b
  isBottom_join {a b : α} : p a → p b → isBottom (join a b) = (isBottom a && isBottom b)
  leq_of_isBottom {a b : α} : p a → p b → isBottom a → leq a b

namespace JoinLaws

variable {α : Type} [AbstractDomain α] {p : α → Prop} (L : JoinLaws p) {a b c : α}
include L

theorem equals_iff_leq (ha : p a) (hb : p b) : equals a b ↔ leq a b ∧ leq b a := by
  rw [L.equals_iff ha hb]
  refine ⟨?_, fun h => L.leq_antisymm ha hb h.1 h.2⟩
  intro heq
  subst heq
  exact ⟨L.leq_refl ha, L.leq_refl ha⟩

theorem join_leq_iff (ha : p a) (hb : p b) (hc : p c) :
    leq (join a b) c ↔ leq a c ∧ leq b c := by
  refine ⟨fun h => ⟨?_, ?_⟩, fun h => L.join_leq ha hb hc h.1 h.2⟩
  · exact L.leq_trans ha (L.join_mem ha hb) hc (L.leq_join_left ha hb) h
  · exact L.leq_trans hb (L.join_mem ha hb) hc (L.leq_join_right ha hb) h

theorem join_comm (ha : p a) (hb : p b) : join a b = join b a := by
  have hab := L.join_mem ha hb
  have hba := L.join_mem hb ha
  apply L.leq_antisymm hab hba
  · exact L.join_leq ha hb hba (L.leq_join_right hb ha) (L.leq_join_left hb ha)
  · exact L.join_leq hb ha hab (L.leq_join_right ha hb) (L.leq_join_left ha hb)

theorem join_assoc (ha : p a) (hb : p b) (hc : p c) :
    join (join a b) c = join a (join b c) := by
  have hab := L.join_mem ha hb
  have hbc := L.join_mem hb hc
  have hleft := L.join_mem hab hc
  have hright := L.join_mem ha hbc
  have upper := (L.join_leq_iff ha hbc hright).1 (L.leq_refl hright)
  have upper' := (L.join_leq_iff hab hc hleft).1 (L.leq_refl hleft)
  rw [L.join_leq_iff hb hc hright] at upper
  rw [L.join_leq_iff ha hb hleft] at upper'
  apply L.leq_antisymm hleft hright
  · exact L.join_leq hab hc hright (L.join_leq ha hb hright upper.1 upper.2.1) upper.2.2
  · exact L.join_leq ha hbc hleft upper'.1.1 (L.join_leq hb hc hleft upper'.1.2 upper'.2)

theorem join_eq_left (ha : p a) (hb : p b) (h : leq b a) : join a b = a :=
  L.leq_antisymm (L.join_mem ha hb) ha (L.join_leq ha hb ha (L.leq_refl ha) h)
    (L.leq_join_left ha hb)

theorem join_eq_right (ha : p a) (hb : p b) (h : leq a b) : join a b = b := by
  rw [L.join_comm ha hb]
  exact L.join_eq_left hb ha h

theorem join_idem (ha : p a) : join a a = a := L.join_eq_left ha ha (L.leq_refl ha)

theorem foldl_join_eq (ha : p a) {es : List α} (hes : ∀ e ∈ es, e = a) : es.foldl join a = a := by
  induction es with
  | nil => rfl
  | cons e es ih =>
      rw [List.foldl_cons, hes e (by simp), L.join_idem ha]
      exact ih fun e' he' => hes e' (by simp [he'])

/-- Elements with the same upper bounds are equal. -/
theorem eq_of_forall_leq_iff (ha : p a) (hb : p b) (h : ∀ c, p c → (leq a c ↔ leq b c)) :
    a = b :=
  L.leq_antisymm ha hb ((h b hb).2 (L.leq_refl hb)) ((h a ha).1 (L.leq_refl ha))

theorem foldl_join_mem (ha : p a) {es : List α} (hes : ∀ e ∈ es, p e) : p (es.foldl join a) := by
  induction es generalizing a with
  | nil => exact ha
  | cons e es ih => exact ih (L.join_mem ha (hes e (by simp))) fun f hf => hes f (by simp [hf])

/-- A fold of joins is the least element above all that was joined. -/
theorem foldl_join_leq_iff (ha : p a) {es : List α} (hes : ∀ e ∈ es, p e) (hc : p c) :
    leq (es.foldl join a) c ↔ leq a c ∧ ∀ e ∈ es, leq e c := by
  induction es generalizing a with
  | nil => simp
  | cons e es ih =>
      have he := hes e (by simp)
      rw [List.foldl_cons, ih (L.join_mem ha he) fun f hf => hes f (by simp [hf]),
        L.join_leq_iff ha he hc, List.forall_mem_cons, and_assoc]

/-- The laws hold of fewer elements as well, when these are closed under joins. -/
theorem restrict {q : α → Prop} (hsub : ∀ {a}, q a → p a)
    (hmem : ∀ {a b}, q a → q b → q (join a b)) : JoinLaws q where
  leq_refl ha := L.leq_refl (hsub ha)
  leq_trans ha hb hc := L.leq_trans (hsub ha) (hsub hb) (hsub hc)
  leq_antisymm ha hb := L.leq_antisymm (hsub ha) (hsub hb)
  equals_iff ha hb := L.equals_iff (hsub ha) (hsub hb)
  join_mem := hmem
  leq_join_left ha hb := L.leq_join_left (hsub ha) (hsub hb)
  leq_join_right ha hb := L.leq_join_right (hsub ha) (hsub hb)
  join_leq ha hb hc := L.join_leq (hsub ha) (hsub hb) (hsub hc)
  widen_eq ha hb := L.widen_eq (hsub ha) (hsub hb)
  isBottom_join ha hb := L.isBottom_join (hsub ha) (hsub hb)
  leq_of_isBottom ha hb := L.leq_of_isBottom (hsub ha) (hsub hb)

/-- A domain obeys the laws when it is embedded into one that does, and its operations are those of
the images. -/
theorem comap {β : Type} [AbstractDomain β] {q : β → Prop} (f : β → α)
    (mem : ∀ {x}, q x → p (f x)) (inj : ∀ {x y}, q x → q y → f x = f y → x = y)
    (hleq : ∀ {x y}, q x → q y → leq x y = leq (f x) (f y))
    (hequals : ∀ {x y}, q x → q y → equals x y = equals (f x) (f y))
    (hmem : ∀ {x y}, q x → q y → q (join x y))
    (hjoin : ∀ {x y}, q x → q y → f (join x y) = join (f x) (f y))
    (hwiden : ∀ {x y}, q x → q y → widen x y = join x y)
    (hbottom : ∀ {x}, q x → isBottom x = isBottom (f x)) : JoinLaws q where
  leq_refl hx := hleq hx hx ▸ L.leq_refl (mem hx)
  leq_trans hx hy hz hxy hyz := by
    rw [hleq hx hy] at hxy
    rw [hleq hy hz] at hyz
    rw [hleq hx hz]
    exact L.leq_trans (mem hx) (mem hy) (mem hz) hxy hyz
  leq_antisymm hx hy hxy hyx := by
    rw [hleq hx hy] at hxy
    rw [hleq hy hx] at hyx
    exact inj hx hy (L.leq_antisymm (mem hx) (mem hy) hxy hyx)
  equals_iff hx hy := by
    rw [hequals hx hy, L.equals_iff (mem hx) (mem hy)]
    exact ⟨inj hx hy, congrArg f⟩
  join_mem := hmem
  leq_join_left hx hy := by
    rw [hleq hx (hmem hx hy), hjoin hx hy]
    exact L.leq_join_left (mem hx) (mem hy)
  leq_join_right hx hy := by
    rw [hleq hy (hmem hx hy), hjoin hx hy]
    exact L.leq_join_right (mem hx) (mem hy)
  join_leq hx hy hz hxz hyz := by
    rw [hleq hx hz] at hxz
    rw [hleq hy hz] at hyz
    rw [hleq (hmem hx hy) hz, hjoin hx hy]
    exact L.join_leq (mem hx) (mem hy) (mem hz) hxz hyz
  widen_eq := hwiden
  isBottom_join hx hy := by
    rw [hbottom (hmem hx hy), hbottom hx, hbottom hy, hjoin hx hy]
    exact L.isBottom_join (mem hx) (mem hy)
  leq_of_isBottom hx hy hempty := by
    rw [hleq hx hy]
    exact L.leq_of_isBottom (mem hx) (mem hy) (hbottom hx ▸ hempty)

end JoinLaws
end TaintFlow
