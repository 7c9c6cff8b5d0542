import TaintFlow.Collection.SortedSet

/-!
# Methods

A method is identified by its signature, `LClass;.name:(Args)Ret`; frames mention methods by
signature alone. Whether the method is static is not part of the text: it is known where the
method was first mentioned, and a `Method` is a signature together with that knowledge.
-/
namespace TaintFlow

/-- The text that identifies a method. -/
structure Signature where
  text : String
deriving DecidableEq, Repr

namespace Signature

instance : Ord Signature := ⟨compareOn text⟩

instance : Std.TransOrd Signature := inferInstanceAs (Std.TransCmp (compareOn text))

instance : Std.LawfulEqOrd Signature where
  eq_of_compare {a b} h := by
    have ht : compare a.text b.text = .eq := h
    have := Std.LawfulEqCmp.eq_of_compare ht
    cases a; cases b; simp_all

/-- Split at the last `;.`: the part before it and the part after it. -/
def splitLastBoundary : List Char → Option (List Char × List Char)
  | [] => none
  | c :: r =>
    match splitLastBoundary r with
    | some (before, after) => some (c :: before, after)
    | none =>
      match c, r with
      | ';', '.' :: after => some ([], after)
      | _, _ => none

/-- Declaring class and name: what stands before the first `:` is split at its last `;.`, and the
class keeps the `;`. Without `;.` there is no class and the name is the whole part. -/
def classAndName (s : Signature) : String × String :=
  let declared := s.text.toList.takeWhile (· ≠ ':')
  match splitLastBoundary declared with
  | some (before, after) => (String.ofList before ++ ";", String.ofList after)
  | none => ("", String.ofList declared)

def className (s : Signature) : String := s.classAndName.1

def methodName (s : Signature) : String := s.classAndName.2

end Signature

/-- A method whose kind of dispatch is known. -/
structure Method where
  signature : Signature
  isStatic : Bool
deriving DecidableEq, Repr

/-- The method in diagnostic text, as in `Method(LFoo;.bar:()V)`. -/
def Method.debugText (m : Method) : String := "Method(" ++ m.signature.text ++ ")"

end TaintFlow
