import TaintFlow.AccessPath.Printer
import TaintFlow.Text.Numeral

/-!
# Reading access paths

A text is cut at its first dot into the root and the elements. Elements are read one after the
other; `AccessPath.scanElements` also gives the elements that come before the first one that is
malformed, because they count as mentioned even when the whole path is refused.
-/
namespace TaintFlow

/-- Text that is not an access path. When the root is at fault, only the root is reported. -/
structure InvalidPath where
  text : String
deriving DecidableEq, Repr

def InvalidPath.message (e : InvalidPath) : String := "Invalid access path '" ++ e.text ++ "'"

/-- A parameter number: decimal digits, with a plus sign if desired, of a 32-bit value. -/
def argumentNumber? (cs : List Char) : Option UInt32 :=
  let digits := match cs with
    | '+' :: r => r
    | _ => cs
  (Numeral.natural? 10 digits).bind fun n => if n < UInt32.size then some (UInt32.ofNat n) else none

def argumentChars? (cs : List Char) : Option (List Char) :=
  let opening := "Argument(".toList
  if opening.isPrefixOf cs then
    match (cs.drop opening.length).reverse with
    | ')' :: r => some r.reverse
    | _ => none
  else none

namespace Root

def ofChars? (cs : List Char) : Option Root :=
  if cs = "Return".toList then some .result
  else if cs = "Leaf".toList then some .leaf
  else if cs = "Anchor".toList then some .anchor
  else if cs = "Producer".toList then some .producer
  else ((argumentChars? cs).bind argumentNumber?).map .argument

def ofText (s : String) : Except InvalidPath Root :=
  match ofChars? s.toList with
  | some r => .ok r
  | none => .error ⟨s⟩

end Root

/-- Read up to the closing quote, undoing escapes: the content and what follows the quote. -/
def scanQuoted : List Char → Option (List Char × List Char)
  | [] => none
  | '"' :: r => some ([], r)
  | '\\' :: c :: r =>
    if c = '"' || c = '\\' then (scanQuoted r).map fun (name, rest) => (c :: name, rest) else none
  | ['\\'] => none
  | c :: r => (scanQuoted r).map fun (name, rest) => (c :: name, rest)

/-- Read one element, which the next dot or the end of the text must follow. -/
def scanElement (cs : List Char) : Option (List Char × List Char) :=
  match cs with
  | '"' :: r =>
    match scanQuoted r with
    | some (name, []) => some (name, [])
    | some (name, '.' :: rest) => some (name, '.' :: rest)
    | _ => none
  | _ =>
    let name := cs.takeWhile (· ≠ '.')
    if needsQuotes name then none else some (name, cs.dropWhile (· ≠ '.'))

theorem scanQuoted_length {cs name rest : List Char} (h : scanQuoted cs = some (name, rest)) :
    rest.length < cs.length := by
  fun_induction scanQuoted cs generalizing name rest with
  | case1 => simp at h
  | case2 r => simp_all
  | case3 c r _ ih =>
    obtain ⟨⟨n, t⟩, ht, heq⟩ := Option.map_eq_some_iff.1 h
    have := ih ht
    simp_all
    omega
  | case4 => simp at h
  | case5 => simp at h
  | case6 c r _ _ _ ih =>
    obtain ⟨⟨n, t⟩, ht, heq⟩ := Option.map_eq_some_iff.1 h
    have := ih ht
    simp_all
    omega

theorem scanElement_length {cs name rest : List Char} (h : scanElement cs = some (name, rest)) :
    rest.length ≤ cs.length := by
  unfold scanElement at h
  split at h
  · rename_i r
    cases hq : scanQuoted r with
    | none => simp [hq] at h
    | some p =>
      obtain ⟨n, t⟩ := p
      have := scanQuoted_length hq
      simp only [hq] at h
      split at h
      · simp_all
      · simp_all
        omega
      · cases h
  · have := (List.dropWhile_sublist (l := cs) fun c => decide (c ≠ '.')).length_le
    grind

/-- The elements in front of the first malformed one, and whether there is none such. -/
def scanElements : List Char → List PathElement × Bool
  | [] => ([], true)
  | c :: r =>
    if c = '.' then
      match h : scanElement r with
      | none => ([], false)
      | some (name, rest) =>
        have : rest.length ≤ r.length := scanElement_length h
        let (elements, complete) := scanElements rest
        (⟨String.ofList name⟩ :: elements, complete)
    else ([], false)
termination_by cs => cs.length

namespace AccessPath

/-- The root's part of a text, which ends before the first dot. -/
def rootChars (s : String) : List Char := s.toList.takeWhile (· ≠ '.')

/-- The elements' part of a text, which is empty or starts with a dot. -/
def elementsChars (s : String) : List Char := s.toList.dropWhile (· ≠ '.')

def ofText (s : String) : Except InvalidPath AccessPath :=
  let root := rootChars s
  if root.isEmpty then .error ⟨s⟩
  else
    match Root.ofChars? root with
    | none => .error ⟨String.ofList root⟩
    | some r =>
      match scanElements (elementsChars s) with
      | (elements, true) => .ok ⟨r, elements⟩
      | (_, false) => .error ⟨s⟩

/-- The elements that reading the text mentions: none when the root is malformed, and otherwise
those in front of the first malformed element. -/
def mentioned (s : String) : List PathElement :=
  match Root.ofChars? (rootChars s) with
  | none => []
  | some _ => (scanElements (elementsChars s)).1

end AccessPath
end TaintFlow
