/-!
# Names

The plain identities of the analysis: taint kinds, features, register types, fields and access path
elements. They carry no structure besides their text, are equal exactly when their texts are, and
are ordered by text, code point by code point. The vocabulary is part of the type, so a kind is
never mistaken for a feature.
-/
namespace TaintFlow

inductive Vocabulary where
  /-- Taint category, a source or sink label. -/
  | kind
  /-- Evidence attached to frames. -/
  | feature
  /-- Concrete register type observed at a call site. -/
  | dexType
  /-- Field reference, such as `LClass;.name:LType;`. -/
  | field
  /-- One segment of an access path. -/
  | pathElement
deriving DecidableEq, Repr

/-- The word that introduces a name of the vocabulary in diagnostic text. -/
def Vocabulary.label : Vocabulary → String
  | .kind => "Kind"
  | .feature => "Feature"
  | .dexType => "DexType"
  | .field => "Field"
  | .pathElement => "PathElement"

instance : Ord Vocabulary := ⟨compareOn Vocabulary.ctorIdx⟩

instance : Std.TransOrd Vocabulary :=
  inferInstanceAs (Std.TransCmp (compareOn Vocabulary.ctorIdx))

instance : Std.LawfulEqOrd Vocabulary where
  eq_of_compare {a b} h := by
    cases a <;> cases b <;> first | rfl | exact absurd h (by decide)

structure Name (v : Vocabulary) where
  text : String
deriving DecidableEq, Repr

abbrev Kind := Name .kind
abbrev Feature := Name .feature
abbrev DexType := Name .dexType
abbrev Field := Name .field
abbrev PathElement := Name .pathElement

namespace Name

variable {v : Vocabulary}

instance : Ord (Name v) := ⟨compareOn text⟩

instance : Std.TransOrd (Name v) := inferInstanceAs (Std.TransCmp (compareOn text))

instance : Std.LawfulEqOrd (Name v) where
  eq_of_compare {a b} h := by
    have ht : compare a.text b.text = .eq := h
    have := Std.LawfulEqCmp.eq_of_compare ht
    cases a; cases b; simp_all

/-- The name with its vocabulary, as in `Kind(Sink)`. -/
def debugText (n : Name v) : String := v.label ++ "(" ++ n.text ++ ")"

end Name
end TaintFlow
