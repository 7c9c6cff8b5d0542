import TaintFlow.AccessPath.Parser
import TaintFlow.Proofs.Text.Numeral

/-!
# Access paths read back

Reading the text of an access path gives the access path, whatever its elements are called, so no
two access paths have one text. The text is cut at its first dot, which is the dot in front of the
first element because no root's text has one. An element stands until the next dot that is not within
quotes, and names that could be cut short there are the ones that are written within quotes.
-/
namespace TaintFlow

/-- Scanning undoes the escapes and stops behind the closing quote. -/
theorem scanQuoted_escapeElement (cs rest : List Char) :
    scanQuoted (escapeElement cs ++ '"' :: rest) = some (cs, rest) := by
  induction cs with
  | nil => rfl
  | cons c r ih =>
    by_cases hquote : c = '"'
    · simp [escapeElement, scanQuoted, hquote, ih]
    · by_cases hslash : c = '\\'
      · simp [escapeElement, scanQuoted, hslash, ih]
      · simp [escapeElement, scanQuoted, hquote, hslash, ih]

/-- What may stand behind an element: nothing, or the dot of the next one. -/
def EndsElement (rest : List Char) : Prop := rest = [] ∨ ∃ r, rest = '.' :: r

theorem endsElement_pathChars (es : List PathElement) : EndsElement (pathChars es) := by
  cases es with
  | nil => exact .inl rfl
  | cons e r => exact .inr ⟨elementChars e ++ pathChars r, rfl⟩

/-- A name without dots ends where the next element starts. -/
theorem splitAtDot {name rest : List Char} (hname : ∀ c ∈ name, c ≠ '.')
    (hrest : EndsElement rest) :
    (name ++ rest).takeWhile (· ≠ '.') = name ∧ (name ++ rest).dropWhile (· ≠ '.') = rest := by
  have hpos : ∀ c ∈ name, decide (c ≠ '.') = true := fun c hc => decide_eq_true (hname c hc)
  rw [List.takeWhile_append_of_pos hpos, List.dropWhile_append_of_pos hpos]
  rcases hrest with rfl | ⟨r, rfl⟩
  · simp
  · simp

theorem scanElement_quoted {name rest : List Char} (hrest : EndsElement rest) :
    scanElement ('"' :: escapeElement name ++ ['"'] ++ rest) = some (name, rest) := by
  have htext : '"' :: escapeElement name ++ ['"'] ++ rest =
      '"' :: (escapeElement name ++ '"' :: rest) := by simp
  rw [htext, scanElement, scanQuoted_escapeElement]
  rcases hrest with rfl | ⟨r, rfl⟩ <;> rfl

theorem scanElement_unquoted {name rest : List Char} (hname : needsQuotes name = false)
    (hrest : EndsElement rest) : scanElement (name ++ rest) = some (name, rest) := by
  cases name with
  | nil => cases hname
  | cons c r =>
    have hplain : ∀ d ∈ c :: r, d ≠ '.' ∧ d ≠ '"' := by
      intro d hd
      simp only [needsQuotes, List.isEmpty_cons, Bool.false_or, List.any_eq_false] at hname
      have hspecial := hname d hd
      simp only [isPathSpecial, Bool.or_eq_true, decide_eq_true_eq, not_or] at hspecial
      exact hspecial.1
    obtain ⟨htake, hdrop⟩ := splitAtDot (fun d hd => (hplain d hd).1) hrest
    have hquote : c ≠ '"' := (hplain c (by simp)).2
    rw [scanElement, htake, hdrop, hname]
    · rfl
    · intro r' heq
      exact hquote (List.cons.inj heq).1

/-- An element reads back in front of whatever may follow it. -/
theorem scanElement_elementChars (e : PathElement) {rest : List Char} (hrest : EndsElement rest) :
    scanElement (elementChars e ++ rest) = some (e.text.toList, rest) := by
  simp only [elementChars]
  cases hquotes : needsQuotes e.text.toList with
  | true => exact scanElement_quoted hrest
  | false => exact scanElement_unquoted hquotes hrest

theorem scanElements_dot {r name rest : List Char} (h : scanElement r = some (name, rest)) :
    scanElements ('.' :: r) =
      (⟨String.ofList name⟩ :: (scanElements rest).1, (scanElements rest).2) := by
  rw [scanElements, if_pos rfl]
  split
  · rename_i hnone
    cases hnone.symm.trans h
  · rename_i hsome
    cases hsome.symm.trans h
    rfl

theorem scanElements_pathChars (es : List PathElement) :
    scanElements (pathChars es) = (es, true) := by
  induction es with
  | nil => rw [pathChars, scanElements]
  | cons e r ih =>
    have hfirst := scanElement_elementChars e (endsElement_pathChars r)
    rw [pathChars, List.cons_append, scanElements_dot hfirst, ih, String.ofList_toList]

/-- A parameter's number reads back; its first digit is no sign. -/
theorem argumentNumber?_toDigits (i : UInt32) :
    argumentNumber? (Nat.toDigits 10 i.toNat) = some i := by
  have hsign : ∀ r, Nat.toDigits 10 i.toNat ≠ '+' :: r := Numeral.toDigits_ne_cons rfl _
  -- Only `hsign` keeps the branch that drops a plus sign from being taken.
  simp only [argumentNumber?, Numeral.natural?_toDigits, Option.bind_some, if_pos i.toNat_lt_size,
    UInt32.ofNat_toNat]

namespace Root

theorem toList_text_argument (i : UInt32) :
    (argument i).text.toList = "Argument(".toList ++ (Nat.toDigits 10 i.toNat ++ [')']) := by
  simp [text, toString, Nat.repr]

theorem argumentChars?_text (i : UInt32) :
    argumentChars? (argument i).text.toList = some (Nat.toDigits 10 i.toNat) := by
  rw [toList_text_argument, argumentChars?]
  simp

/-- The texts of the other roots do not end in a parenthesis. -/
theorem text_argument_ne {i : UInt32} {word : String} (hword : word.toList.getLast? ≠ some ')') :
    (argument i).text.toList ≠ word.toList := by
  intro heq
  rw [← heq, toList_text_argument, ← List.append_assoc, List.getLast?_concat] at hword
  exact hword rfl

theorem ofChars?_text (r : Root) : ofChars? r.text.toList = some r := by
  cases r with
  | argument i =>
    rw [ofChars?, if_neg (text_argument_ne (by decide)), if_neg (text_argument_ne (by decide)),
      if_neg (text_argument_ne (by decide)), if_neg (text_argument_ne (by decide)),
      argumentChars?_text, Option.bind_some, argumentNumber?_toDigits, Option.map_some]
  | result => decide
  | leaf => decide
  | anchor => decide
  | producer => decide

theorem ne_dot_of_mem_text (r : Root) : ∀ c ∈ r.text.toList, c ≠ '.' := by
  cases r with
  | argument i =>
    intro c hc heq
    subst heq
    rw [toList_text_argument] at hc
    rcases List.mem_append.1 hc with hopening | hc
    · exact absurd hopening (by decide)
    rcases List.mem_append.1 hc with hdigits | hclosing
    · have hdigit := Nat.isDigit_of_mem_toDigits (by decide) (by decide) hdigits
      exact absurd hdigit (by decide)
    · exact absurd hclosing (by decide)
  | result => exact List.forall_mem_ne'.2 (by decide)
  | leaf => exact List.forall_mem_ne'.2 (by decide)
  | anchor => exact List.forall_mem_ne'.2 (by decide)
  | producer => exact List.forall_mem_ne'.2 (by decide)

theorem ofText_text (r : Root) : ofText r.text = .ok r := by
  rw [ofText, ofChars?_text]

end Root

namespace AccessPath

variable (p : AccessPath)

theorem toList_text : p.text.toList = p.root.text.toList ++ pathChars p.path := by
  rw [text, String.toList_append, String.toList_ofList]

theorem rootChars_text : rootChars p.text = p.root.text.toList := by
  rw [rootChars, toList_text]
  exact (splitAtDot p.root.ne_dot_of_mem_text (endsElement_pathChars p.path)).1

theorem elementsChars_text : elementsChars p.text = pathChars p.path := by
  rw [elementsChars, toList_text]
  exact (splitAtDot p.root.ne_dot_of_mem_text (endsElement_pathChars p.path)).2

theorem ofText_text : ofText p.text = .ok p := by
  have hroot := p.root.ofChars?_text
  have hsome : p.root.text.toList.isEmpty = false := by
    cases hempty : p.root.text.toList with
    | nil =>
      rw [hempty] at hroot
      exact absurd hroot (by simp [Root.ofChars?, argumentChars?])
    | cons c r => rfl
  simp only [ofText, rootChars_text, elementsChars_text, hsome, hroot, scanElements_pathChars,
    Bool.false_eq_true, if_false]

/-- Access paths read back from their texts, and so are told apart by them. -/
theorem text_roundTrip : (∀ p, ofText (text p) = .ok p) ∧ Function.Injective text := by
  refine ⟨ofText_text, fun p q htext => ?_⟩
  have hboth : Except.ok p = Except.ok q :=
    calc .ok p = ofText p.text := (ofText_text p).symm
      _ = ofText q.text := congrArg ofText htext
      _ = .ok q := ofText_text q
  exact Except.ok.inj hboth

end AccessPath
end TaintFlow
