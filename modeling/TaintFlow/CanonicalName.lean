import TaintFlow.Feature.Via
import TaintFlow.Method
import TaintFlow.Text.Substitution

/-!
# Canonical names

Names under which frames are matched across artifacts. A template holds placeholders between
percent signs, and is resolved where its frame crosses a call: `%programmatic_leaf_name%` stands for
the callee's signature and `%via_type_of%` for the one type observed there. A name with any other
placeholder cannot be resolved.
-/
namespace TaintFlow

inductive CanonicalName where
  | template (text : String)
  | instantiated (text : String)
deriving DecidableEq, Repr

namespace CanonicalName

def text : CanonicalName → String
  | template t => t
  | instantiated t => t

def isTemplate : CanonicalName → Bool
  | template _ => true
  | instantiated _ => false

/-- Templates come before instantiated names. -/
def rank : CanonicalName → Nat
  | template _ => 0
  | instantiated _ => 1

instance : Ord CanonicalName := ⟨compareLex (compareOn rank) (compareOn text)⟩

instance : Std.TransOrd CanonicalName :=
  inferInstanceAs (Std.TransCmp (compareLex (compareOn rank) (compareOn text)))

instance : Std.LawfulEqOrd CanonicalName where
  eq_of_compare {a b} h := by
    have h' : (compare a.rank b.rank).then (compare a.text b.text) = .eq := h
    obtain ⟨hr, ht⟩ := Ordering.then_eq_eq.1 h'
    have hr := Std.LawfulEqCmp.eq_of_compare hr
    have ht := Std.LawfulEqCmp.eq_of_compare ht
    cases a <;> cases b <;> simp_all [rank, text]

def leafPlaceholder : String := "%programmatic_leaf_name%"

def viaTypePlaceholder : String := "%via_type_of%"

/-- Characters of the word of a placeholder. -/
def isWordChar (c : Char) : Bool := ('a' ≤ c && c ≤ 'z') || c = '_'

def closesPlaceholder (cs : List Char) : Bool :=
  match cs.takeWhile isWordChar, cs.dropWhile isWordChar with
  | _ :: _, '%' :: _ => true
  | _, _ => false

def hasPlaceholder : List Char → Bool
  | [] => false
  | c :: r => (c = '%' && closesPlaceholder r) || hasPlaceholder r

/-- Put the type observed at the call in place of its placeholder. A text without the placeholder
needs no type; otherwise exactly one type must have been observed. -/
def resolveViaType (viaTypes : List Feature) (cs : List Char) : Option (List Char) :=
  if Substitution.occursIn viaTypePlaceholder.toList cs then
    match viaTypes with
    | [f] => (viaTypeName? f).map fun name =>
        Substitution.replaceAll viaTypePlaceholder.toList name.toList cs
    | _ => none
  else some cs

/-- Resolve a template at a call of `callee` where `viaTypes` were observed. There is no result for
a name that is instantiated already or that holds a placeholder which cannot be resolved. -/
def instantiate (name : CanonicalName) (callee : Signature) (viaTypes : List Feature) :
    Option CanonicalName :=
  match name with
  | instantiated _ => none
  | template t =>
    let named :=
      Substitution.replaceAll leafPlaceholder.toList callee.text.toList t.toList
    (resolveViaType viaTypes named).bind fun cs =>
      if hasPlaceholder cs then none else some (instantiated (String.ofList cs))

end CanonicalName
end TaintFlow
