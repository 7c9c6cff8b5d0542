import TaintFlow.AccessPath.Parser
import TaintFlow.Double.Printer
import TaintFlow.Json.Basic
import TaintFlow.Registry
import TaintFlow.Text.Quoted

/-!
# Reading values out of JSON

Reading a value of some type out of a JSON value, in a registry that takes note of every name and
method on the way. The first malformed part decides the error, and what was mentioned in front of
it stays mentioned. Parts are visited in the order in which they stand, and the fields of an object
in the order of their keys.
-/
namespace TaintFlow

/-- What was found in place of the value asked for. -/
inductive Found where
  | null
  | bool (b : Bool)
  | integer (n : Int)
  | double (d : Double)
  | string (s : String)
  | sequence
  | map
deriving DecidableEq, Repr

def Json.found : Json → Found
  | null => .null
  | bool b => .bool b
  | integer n => .integer n
  | double d => .double d
  | string s => .string s
  | array _ => .sequence
  | object _ => .map

/-- The records that may be written as an object or as the array of their fields. -/
inductive RecordForm where
  | position
  | mayAlways
  | config
deriving DecidableEq, Repr

inductive Expected where
  | string
  | natural32
  | integer32
  | boolean
  | sequence
  | record (form : RecordForm)
  | stringOrMap
  | unit
deriving DecidableEq, Repr

/-- Why a JSON value cannot be read. -/
inductive ReadError where
  | wrongType (found : Found) (expected : Expected)
  /-- An integer that does not fit into 32 bits. -/
  | outOfRange (n : Int) (expected : Expected)
  /-- An object in place of a variant that has not exactly one field. -/
  | notOneField
  | noContent
  /-- An array with too few elements for a record. -/
  | tooShort (present : Nat) (form : RecordForm)
  /-- An array with too many elements for a record. -/
  | tooLong (length : Nat)
  | missingField (name : String)
  | unknownField (name : String) (known : List String)
  | unknownVariant (name : String) (known : List String)
  | invalidPath (e : InvalidPath)
deriving DecidableEq, Repr

def Found.text : Found → String
  | null => "null"
  | bool b => "boolean `" ++ (if b then "true" else "false") ++ "`"
  | integer n => "integer `" ++ toString n ++ "`"
  | double d => "floating point `" ++ d.text ++ "`"
  | string s => "string " ++ quoted s
  | sequence => "sequence"
  | map => "map"

namespace RecordForm

def text : RecordForm → String
  | position => "struct PositionData"
  | mayAlways => "struct MayAlways"
  | config => "struct PropagationConfig"

def size : RecordForm → Nat
  | position => 2
  | mayAlways => 2
  | config => 3

end RecordForm

def Expected.text : Expected → String
  | string => "a string"
  | natural32 => "u32"
  | integer32 => "i32"
  | boolean => "a boolean"
  | sequence => "a sequence"
  | record form => form.text
  | stringOrMap => "string or map"
  | unit => "unit"

/-- Two alternatives, or a longer list of them, each between backquotes. -/
def alternativesText (names : List String) : String :=
  let names := names.map fun n => "`" ++ n ++ "`"
  match names with
  | [a, b] => a ++ " or " ++ b
  | _ => "one of " ++ ", ".intercalate names

namespace ReadError

def message : ReadError → String
  | wrongType found expected => "invalid type: " ++ found.text ++ ", expected " ++ expected.text
  | outOfRange n expected =>
    "invalid value: " ++ (Found.integer n).text ++ ", expected " ++ expected.text
  | notOneField => "invalid value: map, expected map with a single key"
  | noContent => "invalid type: unit variant, expected newtype variant"
  | tooShort present form =>
    "invalid length " ++ toString present ++ ", expected " ++ form.text ++ " with "
      ++ toString form.size ++ " elements"
  | tooLong length =>
    "invalid length " ++ toString length ++ ", expected fewer elements in array"
  | missingField name => "missing field `" ++ name ++ "`"
  | unknownField name known =>
    "unknown field `" ++ name ++ "`, expected " ++ alternativesText known
  | unknownVariant name known =>
    "unknown variant `" ++ name ++ "`, expected " ++ alternativesText known
  | invalidPath e => e.message

end ReadError

/-- A reading in progress: the registry goes on also when the reading fails. -/
abbrev Reading (α : Type) := ExceptT ReadError (StateM Registry) α

namespace Reading

def mention {v : Vocabulary} (n : Name v) : Reading Unit := modify (·.mention n)

/-- Take note of a method that is met without word of its dispatch, and so is not static. -/
def mentionMethod (s : Signature) : Reading Unit := modify fun r => (r.mentionMethod s false).2

def mentionPosition (p : Position) : Reading Unit := modify (·.mentionPosition p)

def string : Json → Reading String
  | .string s => pure s
  | j => throw (.wrongType j.found .string)

def bounded (expected : Expected) (low high : Int) : Json → Reading Int
  | .integer n => if low ≤ n ∧ n ≤ high then pure n else throw (.outOfRange n expected)
  | j => throw (.wrongType j.found expected)

def natural32 (j : Json) : Reading UInt32 := do
  let n ← bounded .natural32 0 (UInt32.size - 1) j
  pure (UInt32.ofNat n.toNat)

def integer32 (j : Json) : Reading Int32 := do
  let n ← bounded .integer32 Int32.minValue.toInt Int32.maxValue.toInt j
  pure (Int32.ofInt n)

def boolean : Json → Reading Bool
  | .bool b => pure b
  | j => throw (.wrongType j.found .boolean)

/-- Null, or a value. -/
def optional {α : Type} (read : Json → Reading α) : Json → Reading (Option α)
  | .null => pure none
  | j => some <$> read j

def sequence {α : Type} (read : Json → Reading α) : Json → Reading (List α)
  | .array items => items.mapM read
  | j => throw (.wrongType j.found .sequence)

/-- A sequence whose order and repetitions do not matter. -/
def set {α : Type} [Ord α] [Std.TransOrd α] (read : Json → Reading α) (j : Json) :
    Reading (SortedSet α) := do
  let items ← sequence read j
  pure (.ofList items)

def field? {α : Type} (fields : List (String × Json)) (key : String) (read : Json → Reading α) :
    Reading (Option α) :=
  match fields.find? fun f => f.1 = key with
  | none => pure none
  | some (_, j) => some <$> read j

/-- The value of a field that has been looked for. -/
def required {α : Type} (key : String) : Option α → Reading α
  | none => throw (.missingField key)
  | some a => pure a

/-- The name of a variant and its content: a string alone, or an object with one field. -/
def variant : Json → Reading (String × Option Json)
  | .string s => pure (s, none)
  | .object [(key, content)] => pure (key, some content)
  | .object _ => throw .notOneField
  | j => throw (.wrongType j.found .stringOrMap)

def name (v : Vocabulary) (j : Json) : Reading (Name v) := do
  let s ← string j
  mention (⟨s⟩ : Name v)
  pure ⟨s⟩

def signature (j : Json) : Reading Signature := do
  let s ← string j
  mentionMethod ⟨s⟩
  pure ⟨s⟩

def root (j : Json) : Reading Root := do
  let s ← string j
  match Root.ofText s with
  | .ok r => pure r
  | .error e => throw (.invalidPath e)

def accessPath (j : Json) : Reading AccessPath := do
  let s ← string j
  (AccessPath.mentioned s).forM fun e => mention e
  match AccessPath.ofText s with
  | .ok p => pure p
  | .error e => throw (.invalidPath e)

end Reading
end TaintFlow
