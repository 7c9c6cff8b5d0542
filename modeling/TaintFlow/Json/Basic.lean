import TaintFlow.Collection.SortedMap
import TaintFlow.Double.Basic

/-!
# JSON values

A JSON value keeps integers apart from numbers written with a point or an exponent. The fields of an
object are kept in ascending order of their keys, each key once, so that equal objects are equal
values.
-/
namespace TaintFlow

inductive Json where
  | null
  | bool (b : Bool)
  | integer (n : Int)
  /-- A number written with a point or an exponent, or beyond 64 bits. -/
  | double (d : Double)
  | string (s : String)
  | array (items : List Json)
  /-- Fields in ascending order of their keys. -/
  | object (fields : List (String × Json))

namespace Json

instance : Inhabited Json := ⟨null⟩

/-- The object of some fields; of two fields with one key the later one counts. -/
def ofFields (fields : List (String × Json)) : Json :=
  object (fields.foldl (fun m (k, v) => m.insert k v) (∅ : SortedMap String Json)).entries

def ofNat (n : Nat) : Json := integer n

def strings (ss : List String) : Json := array (ss.map string)

def nullable {α : Type} (write : α → Json) : Option α → Json
  | none => null
  | some a => write a

/-- The value of a field; an absent field and a null one are the same. -/
def field (key : String) : Json → Json
  | object fields => ((fields.find? fun f => f.1 = key).map Prod.snd).getD null
  | _ => null

def isNull : Json → Bool
  | null => true
  | _ => false

end Json
end TaintFlow
