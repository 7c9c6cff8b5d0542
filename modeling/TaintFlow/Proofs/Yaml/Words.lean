import TaintFlow.Proofs.Text.Numeral
import TaintFlow.Proofs.Yaml.Document

/-!
# Mappings of words

A mapping whose keys and values are words, with each entry on a line of its own, follows the rules
of documents, so it is read back. Decimal numerals are words.
-/
namespace TaintFlow.Yaml

def isWordChar (c : Char) : Bool := c.isAlphanum || c = '_'

/-- A word of letters, digits and underscores. -/
structure IsWord (cs : List Char) : Prop where
  nonempty : cs ≠ []
  chars : ∀ c ∈ cs, isWordChar c

instance (cs : List Char) : Decidable (IsWord cs) :=
  decidable_of_iff (cs ≠ [] ∧ cs.all isWordChar)
    ⟨fun h => ⟨h.1, List.all_eq_true.1 h.2⟩, fun h => ⟨h.nonempty, List.all_eq_true.2 h.chars⟩⟩

/-- Lines of words with a colon between them. -/
def wordLines : List (List Char × List Char) → List Char
  | [] => []
  | (key, value) :: lines => key ++ ':' :: ' ' :: (value ++ '\n' :: wordLines lines)

/-- The mapping that the lines stand for. -/
def wordMapping (lines : List (List Char × List Char)) : Mapping :=
  lines.map fun line => (.plain (String.ofList line.1), .plain (String.ofList line.2))

section Words

variable {c : Char} {cs : List Char} {lines : List (List Char × List Char)}

theorem ne_of_isWordChar (hc : isWordChar c) {d : Char} (hd : isWordChar d = false) : c ≠ d := by
  rintro rfl
  exact Bool.false_ne_true (hd.symm.trans hc)

theorem not_mem_of_isWordChar (hc : isWordChar c) {ds : List Char}
    (hds : ds.any isWordChar = false) : c ∉ ds :=
  fun hmem => List.any_eq_false.1 hds c hmem hc

theorem isPlainChar_of_isWordChar (hc : isWordChar c) : isPlainChar c := by
  have hpunctuation : isFlowPunctuation c = false :=
    decide_eq_false (not_mem_of_isWordChar hc (by decide))
  simp [isPlainChar, hpunctuation, ne_of_isWordChar hc (d := '\n') rfl,
    ne_of_isWordChar hc (d := ':') rfl, ne_of_isWordChar hc (d := '#') rfl]

theorem isBlank_of_isWordChar (hc : isWordChar c) : isBlank c = false := by
  simp [isBlank, ne_of_isWordChar hc (d := ' ') rfl, ne_of_isWordChar hc (d := '\t') rfl]

theorem isStartChar_of_isWordChar (hc : isWordChar c) : isStartChar c := by
  have hindicator : isIndicator c = false :=
    decide_eq_false (not_mem_of_isWordChar hc (by decide))
  simp [isStartChar, hindicator, isBlank_of_isWordChar hc, ne_of_isWordChar hc (d := '\n') rfl,
    ne_of_isWordChar hc (d := byteOrderMark) rfl]

theorem toNat_of_isWordChar (hc : isWordChar c) : 0x20 ≤ c.toNat ∧ c.toNat ≤ 0x7E := by
  unfold isWordChar Char.isAlphanum Char.isAlpha Char.isUpper Char.isLower Char.isDigit at hc
  simp only [ge_iff_le, Bool.or_eq_true, Bool.and_eq_true, decide_eq_true_eq,
    UInt32.le_iff_toNat_le] at hc
  change ((65 ≤ c.toNat ∧ c.toNat ≤ 90 ∨ 97 ≤ c.toNat ∧ c.toNat ≤ 122) ∨
    48 ≤ c.toNat ∧ c.toNat ≤ 57) ∨ c = '_' at hc
  rcases hc with hc | rfl
  · omega
  · decide

theorem IsWord.plainText (h : IsWord cs) : PlainText cs where
  chars := fun c hc => isPlainChar_of_isWordChar (h.chars c hc)
  starts := by
    obtain ⟨c, r, rfl⟩ := List.exists_cons_of_ne_nil h.nonempty
    exact ⟨c, r, rfl, .inl (isStartChar_of_isWordChar (h.chars c List.mem_cons_self))⟩
  ends := by
    have hlast := h.chars _ (List.getLast_mem h.nonempty)
    exact ⟨_, _, (List.dropLast_append_getLast h.nonempty).symm, isBlank_of_isWordChar hlast⟩

/-- An entry of words on a line of its own. -/
theorem blockText_wordLines (hlines : ∀ line ∈ lines, IsWord line.1 ∧ IsWord line.2)
    (hlength : ∀ line ∈ lines, line.1.length ≤ maxKeyLength) :
    BlockText 0 (wordLines lines) (wordMapping lines) := by
  induction lines with
  | nil => exact .nil (.none .refl)
  | cons line lines ih =>
    obtain ⟨key, value⟩ := line
    obtain ⟨⟨hkey, hvalue⟩, hlines⟩ := List.forall_mem_cons.1 hlines
    obtain ⟨hfits, hlength⟩ := List.forall_mem_cons.1 hlength
    have hhead : ∀ c, isWordChar c = false → key.head? ≠ some c := by
      intro c hc heq
      obtain ⟨r, rfl⟩ := List.head?_eq_some_iff.1 heq
      exact ne_of_isWordChar (hkey.chars c List.mem_cons_self) hc rfl
    have hkeyText : KeyText (key ++ []) (.plain (String.ofList key)) :=
      .intro (.plain hkey.plainText) nofun (by rwa [List.append_nil])
    rw [List.append_nil] at hkeyText
    have hvalueText : ValueText 0 ([' '] ++ (value ++ ([] ++ '\n' :: wordLines lines)))
        (.plain (String.ofList value)) (wordLines lines) :=
      .given (List.forall_mem_singleton.2 rfl) (by decide) (.plain hvalue.plainText) .nil .breaks
    exact .cons .refl hkeyText (hhead '-' rfl) (hhead '.' rfl) hvalueText (ih hlines hlength)

theorem normalizeBreaks_of_isAscii (h : ∀ c ∈ cs, c = '\n' ∨ 0x20 ≤ c.toNat ∧ c.toNat ≤ 0x7E) :
    normalizeBreaks cs = cs := by
  induction cs with
  | nil => rfl
  | cons c cs ih =>
    obtain ⟨hc, hcs⟩ := List.forall_mem_cons.1 h
    have hne : ∀ d, (d.toNat < 0x20 ∨ 0x7E < d.toNat) → d ≠ '\n' → c ≠ d := by
      rintro d hd hbreak rfl
      rcases hc with rfl | hc
      · exact hbreak rfl
      · omega
    have hreturn := hne '\r' (by decide) (by decide)
    rw [normalizeBreaks, ih hcs]
    · simp [hreturn, hne '\u0085' (by decide) (by decide), hne '\u2028' (by decide) (by decide),
        hne '\u2029' (by decide) (by decide)]
    · exact fun _ heq _ => hreturn heq

theorem forall_mem_wordLines (hlines : ∀ line ∈ lines, IsWord line.1 ∧ IsWord line.2) :
    ∀ c ∈ wordLines lines, c = '\n' ∨ 0x20 ≤ c.toNat ∧ c.toNat ≤ 0x7E := by
  induction lines with
  | nil => nofun
  | cons line lines ih =>
    obtain ⟨key, value⟩ := line
    obtain ⟨⟨hkey, hvalue⟩, hlines⟩ := List.forall_mem_cons.1 hlines
    intro c hc
    simp only [wordLines, List.mem_append, List.mem_cons] at hc
    rcases hc with hc | rfl | rfl | hc | rfl | hc
    · exact .inr (toNat_of_isWordChar (hkey.chars c hc))
    · exact .inr (by decide)
    · exact .inr (by decide)
    · exact .inr (toNat_of_isWordChar (hvalue.chars c hc))
    · exact .inl rfl
    · exact ih hlines c hc

/-- Lines of words are a way to write their mapping. -/
theorem written_wordLines (hlines : ∀ line ∈ lines, IsWord line.1 ∧ IsWord line.2)
    (hlength : ∀ line ∈ lines, line.1.length ≤ maxKeyLength) :
    Written (wordMapping lines) (String.ofList (wordLines lines)) := by
  have hchars := forall_mem_wordLines hlines
  have hblock := blockText_wordLines hlines hlength
  constructor
  · rw [String.toList_ofList, List.all_eq_true]
    intro c hc
    rcases hchars c hc with rfl | ⟨hlow, hhigh⟩
    · rfl
    · simp [isAllowed, hlow, hhigh]
  · rw [String.toList_ofList, normalizeBreaks_of_isAscii hchars]
    cases lines with
    | nil => exact .bare (.empty .refl)
    | cons line lines => exact .bare (.block hblock)

end Words

section Numerals

/-- A decimal numeral is a word. -/
theorem isWord_toDigits (n : Nat) : IsWord (Nat.toDigits 10 n) where
  nonempty := Nat.toDigits_ne_nil
  chars := by
    intro c hc
    have hdigit := Nat.isDigit_of_mem_toDigits (by decide) (by decide) hc
    simp [isWordChar, Char.isAlphanum, hdigit]

theorem unsigned?_of_head?_ne {cs : List Char} (h : cs.head? ≠ some '0') :
    unsigned? cs = Numeral.natural? 10 cs := by
  unfold unsigned?
  split
  · exact absurd rfl h
  · exact absurd rfl h
  · exact absurd rfl h
  · exact absurd rfl h
  · rfl

/-- A decimal numeral is read as its number. -/
theorem naturalOf?_toDigits (n : Nat) : naturalOf? (Nat.toDigits 10 n) = some n := by
  have hunsigned : unsigned? (Nat.toDigits 10 n) = some n := by
    rcases Nat.eq_zero_or_pos n with rfl | hpos
    · rfl
    · rw [unsigned?_of_head?_ne (Numeral.head?_toDigits_ne_zero hpos), Numeral.natural?_toDigits]
  unfold naturalOf?
  split
  · next r hplus => exact absurd hplus (Numeral.toDigits_ne_cons rfl n r)
  · exact hunsigned

end Numerals
end TaintFlow.Yaml
