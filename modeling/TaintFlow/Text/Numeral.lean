/-!
# Numerals

Reading a natural number from its digits in a given radix. The digits are `0` to `9` and, above
radix ten, the ASCII letters in either case; there is no sign, no separator and no empty numeral.
Main statement: the decimal numeral of a number reads back as the number.
-/
namespace TaintFlow.Numeral

def digit? (radix : Nat) (c : Char) : Option Nat :=
  let value? : Option Nat :=
    if c.isDigit then some (c.toNat - '0'.toNat)
    else if 'a' ≤ c ∧ c ≤ 'z' then some (c.toNat - 'a'.toNat + 10)
    else if 'A' ≤ c ∧ c ≤ 'Z' then some (c.toNat - 'A'.toNat + 10)
    else none
  value?.filter fun d => decide (d < radix)

/-- Continue a numeral whose leading digits denote `n`. -/
def continue? (radix n : Nat) : List Char → Option Nat
  | [] => some n
  | c :: r => (digit? radix c).bind fun d => continue? radix (radix * n + d) r

/-- The number denoted by a non-empty string of digits. -/
def natural? (radix : Nat) (cs : List Char) : Option Nat :=
  if cs.isEmpty then none else continue? radix 0 cs

theorem digit?_of_isDigit {c : Char} (h : c.isDigit = true) :
    digit? 10 c = some (c.toNat - '0'.toNat) := by
  have hc : c.toNat ≤ 57 := by
    simp only [Char.isDigit, ge_iff_le, Bool.and_eq_true, decide_eq_true_eq] at h
    exact UInt32.le_iff_toNat_le.1 h.2
  have hlt : c.toNat - 48 < 10 := by omega
  simpa [digit?, h, Option.filter] using hlt

theorem continue?_of_isDigit {cs : List Char} (h : ∀ c ∈ cs, c.isDigit = true) (n : Nat) :
    continue? 10 n cs = some (Nat.ofDigitChars 10 cs n) := by
  induction cs generalizing n with
  | nil => rfl
  | cons c r ih =>
    rw [continue?, digit?_of_isDigit (h c (by simp)), Option.bind_some, Nat.ofDigitChars_cons]
    exact ih (fun d hd => h d (by simp [hd])) _

/-- The decimal numeral of a number reads back. -/
theorem natural?_toDigits (n : Nat) : natural? 10 (Nat.toDigits 10 n) = some n := by
  have digits : ∀ c ∈ Nat.toDigits 10 n, c.isDigit = true := fun c hc =>
    Nat.isDigit_of_mem_toDigits (by decide) (by decide) hc
  simp [natural?, Nat.toDigits_ne_nil, continue?_of_isDigit digits, Nat.ofDigitChars_ten_toDigits]

end TaintFlow.Numeral
