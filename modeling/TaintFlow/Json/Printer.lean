import TaintFlow.Double.Printer
import TaintFlow.Json.Basic

/-!
# Compact JSON text

A value on one line without blanks. Within strings a quote, a backslash and the control characters
below U+0020 are escaped, the latter by a short escape where there is one; all else stands as it is.
-/
namespace TaintFlow.Json

/-- A control character by its number. -/
def controlEscape (c : Char) : List Char :=
  let hex := Nat.toDigits 16 c.toNat
  '\\' :: 'u' :: List.replicate (4 - hex.length) '0' ++ hex

def escapeChar (c : Char) : List Char :=
  match c with
  | '"' => ['\\', '"']
  | '\\' => ['\\', '\\']
  | '\n' => ['\\', 'n']
  | '\r' => ['\\', 'r']
  | '\t' => ['\\', 't']
  | '\x08' => ['\\', 'b']
  | '\x0c' => ['\\', 'f']
  | _ => if c.toNat < 0x20 then controlEscape c else [c]

def stringText (s : String) : String :=
  "\"" ++ String.ofList (s.toList.flatMap escapeChar) ++ "\""

mutual

def text : Json → String
  | .null => "null"
  | .bool b => if b then "true" else "false"
  | .integer n => toString n
  | .double d => d.text
  | .string s => stringText s
  | .array items => "[" ++ ",".intercalate (itemTexts items) ++ "]"
  | .object fields => "\x7b" ++ ",".intercalate (fieldTexts fields) ++ "\x7d"

def itemTexts : List Json → List String
  | [] => []
  | v :: r => text v :: itemTexts r

def fieldTexts : List (String × Json) → List String
  | [] => []
  | (k, v) :: r => (stringText k ++ ":" ++ text v) :: fieldTexts r

end

/-- Values in ascending order of their compact texts. -/
def sortByText (vs : List Json) : List Json :=
  let keyed := vs.map fun v => (text v, v)
  (keyed.mergeSort fun a b => decide (a.1 ≤ b.1)).map Prod.snd

end TaintFlow.Json
