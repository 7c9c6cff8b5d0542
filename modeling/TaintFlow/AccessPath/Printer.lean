import TaintFlow.AccessPath.Basic

/-!
# The text of access paths

A root is written as one word, such as `Argument(1)` or `Return`, and every element follows after a
dot. An element that is empty or contains a dot, a quote or a backslash is quoted, and within quotes
a backslash precedes each quote and each backslash: `Return."a.b"`, `Return.""`.

The canonical form of a port for a method is given here too, because it writes the old root into
the path: a parameter is counted from the first declared one, so that the receiver of an instance
method becomes `Argument(-1)`.
-/
namespace TaintFlow

def argumentText (i : Int) : String := "Argument(" ++ toString i ++ ")"

def Root.text : Root → String
  | .argument i => "Argument(" ++ toString i.toNat ++ ")"
  | .result => "Return"
  | .leaf => "Leaf"
  | .anchor => "Anchor"
  | .producer => "Producer"

/-- Characters that may stand in an element only within quotes. -/
def isPathSpecial (c : Char) : Bool := c = '.' || c = '"' || c = '\\'

def needsQuotes (cs : List Char) : Bool := cs.isEmpty || cs.any isPathSpecial

/-- Put a backslash in front of each quote and each backslash. -/
def escapeElement : List Char → List Char
  | [] => []
  | c :: r => if c = '"' || c = '\\' then '\\' :: c :: escapeElement r else c :: escapeElement r

def elementChars (e : PathElement) : List Char :=
  let cs := e.text.toList
  if needsQuotes cs then '"' :: escapeElement cs ++ ['"'] else cs

def pathChars : List PathElement → List Char
  | [] => []
  | e :: r => '.' :: elementChars e ++ pathChars r

namespace AccessPath

def text (p : AccessPath) : String := p.root.text ++ String.ofList (pathChars p.path)

/-- The form of a port that is matched across artifacts. Every port but an anchor or a producer is
anchored anew, and its old root becomes the first element of the path. -/
def canonicalize (p : AccessPath) (m : Method) : AccessPath :=
  match p.root with
  | .anchor | .producer => p
  | .argument i =>
    ⟨.anchor, ⟨argumentText ((i.toNat : Int) - if m.isStatic then 0 else 1)⟩ :: p.path⟩
  | r => ⟨.anchor, ⟨r.text⟩ :: p.path⟩

end AccessPath
end TaintFlow
