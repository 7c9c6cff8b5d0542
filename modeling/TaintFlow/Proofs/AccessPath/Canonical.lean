import Mathlib.Data.Set.Function
import TaintFlow.Proofs.AccessPath.RoundTrip
import TaintFlow.Proofs.Text.Numeral

/-!
# Canonical ports

The canonical form of a port keeps the fields of the port behind one more element, which stands for
the old root. The texts of old roots do not clash: a parameter's ends in a parenthesis and tells its
number, shifted or not, and the others are words of their own. So ports that differ have canonical
forms that differ, and facts that are matched across artifacts by their canonical ports are never
mixed up within one method.
-/
namespace TaintFlow

open Numeral (toDigits_injective toDigits_ne_cons)

/-- The numerals of negative numbers start with a sign, and the digits tell the number. -/
theorem toString_int_injective : Function.Injective (toString : Int → String) := by
  intro i j h
  have hchars : (toString i).toList = (toString j).toList := congrArg String.toList h
  rcases i with n | n <;> rcases j with k | k <;>
    simp only [Int.toString_eq_repr, Int.repr, String.toList_append, Nat.toList_repr] at hchars
  · rw [toDigits_injective hchars]
  · exact absurd hchars (toDigits_ne_cons rfl _ _)
  · exact absurd hchars.symm (toDigits_ne_cons rfl _ _)
  · have hnext := toDigits_injective (List.cons.inj hchars).2
    rw [Nat.succ.inj hnext]

theorem argumentText_injective : Function.Injective argumentText := by
  intro i j h
  refine toString_int_injective ?_
  simpa only [argumentText, String.append_left_inj, String.append_right_inj] using h

namespace Root

/-- Roots of ports that are in canonical form. -/
def IsCanonical (r : Root) : Prop := r = .anchor ∨ r = .producer

/-- The element that stands for the old root in a canonical form. -/
def element (r : Root) (m : Method) : PathElement :=
  match r with
  | .argument i => ⟨argumentText ((i.toNat : Int) - if m.isStatic then 0 else 1)⟩
  | r => ⟨r.text⟩

theorem text_injective : Function.Injective text := by
  intro r s h
  have hboth : some r = some s := by
    rw [← ofChars?_text r, ← ofChars?_text s, h]
  exact Option.some.inj hboth

theorem text_element {r : Root} (h : r.isArgument = false) (m : Method) :
    (r.element m).text = r.text := by
  cases r with
  | argument i => cases h
  | _ => rfl

/-- A parameter's text ends in a parenthesis, and the texts of other roots do not. -/
theorem element_argument_ne {r : Root} (h : r.isArgument = false) (i : UInt32) (m : Method) :
    (argument i).element m ≠ r.element m := by
  intro heq
  have hlast : r.text.toList.getLast? = some ')' := by
    rw [← text_element h m, ← heq, element, argumentText, String.toList_append]
    exact List.getLast?_concat
  cases r with
  | argument j => cases h
  | result => exact absurd hlast (by decide)
  | leaf => exact absurd hlast (by decide)
  | anchor => exact absurd hlast (by decide)
  | producer => exact absurd hlast (by decide)

/-- For one method, roots that differ are written differently. -/
theorem element_injective (m : Method) : Function.Injective fun r : Root => r.element m := by
  intro r s heq
  have htext : (r.element m).text = (s.element m).text := congrArg Name.text heq
  cases r with
  | argument i =>
    cases s with
    | argument j =>
      have hshifted := argumentText_injective htext
      have hindex : i.toNat = j.toNat := by omega
      rw [UInt32.toNat_inj.1 hindex]
    | _ => exact absurd heq (element_argument_ne (by rfl) i m)
  | _ =>
    cases s with
    | argument j => exact absurd heq.symm (element_argument_ne (by rfl) j m)
    | _ => exact text_injective htext

end Root

namespace AccessPath

variable {p : AccessPath} {m : Method}

theorem canonicalize_of_isCanonical (h : p.root.IsCanonical) : p.canonicalize m = p := by
  obtain ⟨root, path⟩ := p
  rcases h with hroot | hroot
  · cases hroot
    rfl
  · cases hroot
    rfl

theorem canonicalize_of_not_isCanonical (h : ¬p.root.IsCanonical) :
    p.canonicalize m = ⟨.anchor, p.root.element m :: p.path⟩ := by
  obtain ⟨root, path⟩ := p
  cases root with
  | anchor => exact absurd (.inl rfl) h
  | producer => exact absurd (.inr rfl) h
  | _ => rfl

theorem isCanonical_canonicalize (p : AccessPath) (m : Method) :
    (p.canonicalize m).root.IsCanonical := by
  by_cases h : p.root.IsCanonical
  · rwa [canonicalize_of_isCanonical h]
  · rw [canonicalize_of_not_isCanonical h]
    exact .inl rfl

theorem path_suffix_canonicalize (p : AccessPath) (m : Method) :
    p.path <:+ (p.canonicalize m).path := by
  by_cases h : p.root.IsCanonical
  · simp only [canonicalize_of_isCanonical h, List.suffix_rfl]
  · rw [canonicalize_of_not_isCanonical h]
    exact List.suffix_cons _ _

theorem injOn_canonicalize (m : Method) :
    Set.InjOn (fun p : AccessPath => p.canonicalize m) {p | ¬p.root.IsCanonical} := by
  intro p hp q hq heq
  have hform : (⟨.anchor, p.root.element m :: p.path⟩ : AccessPath) =
      ⟨.anchor, q.root.element m :: q.path⟩ :=
    calc _ = p.canonicalize m := (canonicalize_of_not_isCanonical hp).symm
      _ = q.canonicalize m := heq
      _ = _ := canonicalize_of_not_isCanonical hq
  obtain ⟨helement, hpath⟩ := List.cons.inj (congrArg path hform)
  have hroot := Root.element_injective m helement
  cases p
  cases q
  cases hroot
  cases hpath
  rfl

/-- Canonical ports are rooted at an anchor or a producer, and stay as they are when they are put
into canonical form again, for whatever method. The fields of the port are still at the end, and
among ports with another root no two become the same port for one method. The receiver of an
instance method becomes parameter -1. -/
theorem canonicalize_losesNothing (m : Method) :
    (∀ p : AccessPath,
      (p.canonicalize m).root = .anchor ∨ (p.canonicalize m).root = .producer) ∧
      (∀ (p : AccessPath) m', (p.canonicalize m).canonicalize m' = p.canonicalize m) ∧
      (∀ p : AccessPath, p.path <:+ (p.canonicalize m).path) ∧
      (∀ p q : AccessPath, ¬p.root.IsCanonical → ¬q.root.IsCanonical →
        p.canonicalize m = q.canonicalize m → p = q) ∧
      ∀ path, m.isStatic = false →
        canonicalize ⟨.argument 0, path⟩ m = ⟨.anchor, ⟨"Argument(-1)"⟩ :: path⟩ := by
  refine ⟨fun p => isCanonical_canonicalize p m, fun p m' => ?_,
    fun p => path_suffix_canonicalize p m, fun p q hp hq heq => injOn_canonicalize m hp hq heq,
    fun path hinstance => ?_⟩
  · exact canonicalize_of_isCanonical (isCanonical_canonicalize p m)
  · have hreceiver : Root.element (.argument 0) m = ⟨"Argument(-1)"⟩ := by
      simp only [Root.element, hinstance]
      decide
    rw [canonicalize_of_not_isCanonical (by simp [Root.IsCanonical]), hreceiver]

/-- The last parameter there can be, its number shifted, differs from the receiver and from the
parameter in front of it. -/
theorem canonicalize_losesNothing_of_last_parameter :
    let m : Method := ⟨⟨"LCanon;.instance:(I)V"⟩, false⟩
    let last : AccessPath := ⟨.argument 4294967295, [⟨"data"⟩]⟩
    let former : AccessPath := ⟨.argument 4294967294, [⟨"data"⟩]⟩
    ¬last.root.IsCanonical ∧ ¬former.root.IsCanonical ∧
      (last.canonicalize m).path = [⟨"Argument(4294967294)"⟩, ⟨"data"⟩] ∧
      last.canonicalize m ≠ former.canonicalize m ∧
      canonicalize ⟨.argument 0, [⟨"data"⟩]⟩ m = ⟨.anchor, [⟨"Argument(-1)"⟩, ⟨"data"⟩]⟩ := by
  intro m last former
  obtain ⟨-, -, -, hinjective, hreceiver⟩ := canonicalize_losesNothing m
  have hlast : ¬last.root.IsCanonical := by simp [last, Root.IsCanonical]
  have hformer : ¬former.root.IsCanonical := by simp [former, Root.IsCanonical]
  refine ⟨hlast, hformer, by decide, fun heq => ?_, hreceiver _ rfl⟩
  exact absurd (hinjective last former hlast hformer heq) (by decide)

end AccessPath
end TaintFlow
