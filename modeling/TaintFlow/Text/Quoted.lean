import TaintFlow.Text.Unprintable

/-!
# Texts within quotes

How diagnostics show a text: between double quotes, on one line, with every character that would
not be seen as it is written by an escape.
-/
namespace TaintFlow

/-- The escape of one character, or the character itself. -/
def quotedChar (c : Char) : String :=
  match c with
  | '"' => "\\\""
  | '\\' => "\\\\"
  | '\n' => "\\n"
  | '\r' => "\\r"
  | '\t' => "\\t"
  | '\x00' => "\\0"
  | _ =>
    if isUnprintable c then
      "\\u\x7b" ++ String.ofList (Nat.toDigits 16 c.toNat) ++ "\x7d"
    else String.singleton c

def quoted (s : String) : String := "\"" ++ String.join (s.toList.map quotedChar) ++ "\""

end TaintFlow
