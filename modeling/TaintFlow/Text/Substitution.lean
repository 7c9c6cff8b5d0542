/-!
# Occurrences and their replacement

Searching a text for a pattern and replacing its occurrences. Occurrences are found from left to
right and do not overlap: the search goes on behind the one just replaced, and never looks into
the text put in its place.
-/
namespace TaintFlow.Substitution

def occursIn (pattern : List Char) : List Char → Bool
  | [] => pattern.isEmpty
  | c :: r => pattern.isPrefixOf (c :: r) || occursIn pattern r

/-- Replacement where the first `skip` characters belong to an occurrence already replaced. -/
def replaceFrom (pattern replacement : List Char) (skip : Nat) : List Char → List Char
  | [] => []
  | c :: r =>
    match skip with
    | k + 1 => replaceFrom pattern replacement k r
    | 0 =>
      if pattern.isPrefixOf (c :: r) then
        replacement ++ replaceFrom pattern replacement (pattern.length - 1) r
      else c :: replaceFrom pattern replacement 0 r

/-- Replace every occurrence of a pattern that is not empty. -/
def replaceAll (pattern replacement text : List Char) : List Char :=
  replaceFrom pattern replacement 0 text

/-- A text in which the pattern does not occur stays as it is. -/
theorem replaceAll_of_not_occursIn {pattern text : List Char} (replacement : List Char)
    (h : occursIn pattern text = false) : replaceAll pattern replacement text = text := by
  unfold replaceAll
  induction text with
  | nil => rfl
  | cons c r ih =>
    simp only [occursIn, Bool.or_eq_false_iff] at h
    simp [replaceFrom, h.1, ih h.2]

end TaintFlow.Substitution
