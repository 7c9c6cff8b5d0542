import Mathlib.Logic.Function.Basic
import TaintFlow.Text.Numeral

/-!
# Decimal numerals

A decimal numeral tells its number, has neither a sign nor a zero that it could do without in front,
and is not empty.
-/
namespace TaintFlow.Numeral

theorem toDigits_injective : Function.Injective (Nat.toDigits 10) := by
  intro n k h
  have hboth : some n = some k := by
    rw [← natural?_toDigits n, ← natural?_toDigits k, h]
  exact Option.some.inj hboth

theorem exists_toDigits_eq_cons (n : Nat) :
    ∃ c cs, Nat.toDigits 10 n = c :: cs ∧ c.isDigit = true := by
  cases hdigits : Nat.toDigits 10 n with
  | nil => exact absurd hdigits Nat.toDigits_ne_nil
  | cons c cs =>
    have hmem : c ∈ Nat.toDigits 10 n := by simp [hdigits]
    exact ⟨c, cs, rfl, Nat.isDigit_of_mem_toDigits (by decide) (by decide) hmem⟩

/-- What is no digit does not stand in front of a numeral. -/
theorem toDigits_ne_cons {c : Char} (hc : c.isDigit = false) (n : Nat) (cs : List Char) :
    Nat.toDigits 10 n ≠ c :: cs := by
  obtain ⟨d, r, hdigits, hd⟩ := exists_toDigits_eq_cons n
  rw [hdigits]
  rintro ⟨⟩
  exact Bool.false_ne_true (hc.symm.trans hd)

/-- The numeral of a positive number does not start with a zero. -/
theorem head?_toDigits_ne_zero {n : Nat} (h : 0 < n) : (Nat.toDigits 10 n).head? ≠ some '0' := by
  induction n using Nat.strongRecOn with
  | _ n ih =>
    by_cases hsmall : n < 10
    · have hall : ∀ d < 10, 0 < d → Nat.digitChar d ≠ '0' := by decide
      rw [Nat.toDigits_of_lt_base hsmall]
      simpa using hall n hsmall h
    · have hfront := ih (n / 10) (by omega) (by omega)
      rw [Nat.toDigits_of_base_le (by decide) (by omega),
        List.head?_append]
      intro h
      cases hhead : (Nat.toDigits 10 (n / 10)).head? with
      | none => exact Nat.toDigits_ne_nil (List.head?_eq_none_iff.1 hhead)
      | some c =>
        rw [hhead] at h hfront
        exact hfront h

theorem toDigits_noLeadingZero (n : Nat) :
    ¬((Nat.toDigits 10 n).length ≠ 1 ∧ (Nat.toDigits 10 n).head? = some '0') := by
  rintro ⟨hlength, hhead⟩
  rcases Nat.eq_zero_or_pos n with rfl | hpos
  · exact hlength rfl
  · exact head?_toDigits_ne_zero hpos hhead

end TaintFlow.Numeral
