import TaintFlow.Double.Reader
import TaintFlow.Json.Basic

/-!
# Reading JSON text

One JSON value between blanks. Integers that do not fit into 64 bits, signed or unsigned, and the
integer `-0` become double precision numbers. Each reader gives what it read and the rest of the
text, and nothing for malformed text; the readers of values take as fuel a bound on the depth and
the number of values, for which the length of the text is enough.
-/
namespace TaintFlow.Json

def isBlank (c : Char) : Bool := c = ' ' || c = '\t' || c = '\n' || c = '\r'

def skipBlanks (cs : List Char) : List Char := cs.dropWhile isBlank

def scanHex4 : List Char → Option (Nat × List Char)
  | a :: b :: c :: d :: r => (Numeral.natural? 16 [a, b, c, d]).map fun n => (n, r)
  | _ => none

/-- What follows `\u`: one code unit, or the two units of a surrogate pair. -/
def scanUnicode (cs : List Char) : Option (Char × List Char) :=
  (scanHex4 cs).bind fun (high, r) =>
    if 0xD800 ≤ high ∧ high < 0xDC00 then
      match r with
      | '\\' :: 'u' :: r =>
        (scanHex4 r).bind fun (low, r) =>
          if 0xDC00 ≤ low ∧ low < 0xE000 then
            some (Char.ofNat (0x10000 + (high - 0xD800) * 0x400 + (low - 0xDC00)), r)
          else none
      | _ => none
    else if 0xDC00 ≤ high ∧ high < 0xE000 then none
    else some (Char.ofNat high, r)

/-- The character behind a backslash, except for `\u`. -/
def simpleEscape? : Char → Option Char
  | '"' => some '"'
  | '\\' => some '\\'
  | '/' => some '/'
  | 'b' => some '\x08'
  | 'f' => some '\x0c'
  | 'n' => some '\n'
  | 'r' => some '\r'
  | 't' => some '\t'
  | _ => none

/-- A string behind its opening quote; the characters read so far come in reverse. -/
def scanString (fuel : Nat) (read : List Char) (cs : List Char) : Option (String × List Char) :=
  match fuel, cs with
  | 0, _ => none
  | _, [] => none
  | _, '"' :: r => some (String.ofList read.reverse, r)
  | fuel + 1, '\\' :: 'u' :: r =>
    (scanUnicode r).bind fun (c, r) => scanString fuel (c :: read) r
  | fuel + 1, '\\' :: e :: r => (simpleEscape? e).bind fun c => scanString fuel (c :: read) r
  | fuel + 1, c :: r => if c.toNat < 0x20 || c = '\\' then none else scanString fuel (c :: read) r

/-- A non-empty run of digits. -/
def scanDigits (cs : List Char) : Option (List Char × List Char) :=
  match cs.takeWhile Char.isDigit with
  | [] => none
  | ds => some (ds, cs.dropWhile Char.isDigit)

def scanFraction (cs : List Char) : Option (Option (List Char) × List Char) :=
  match cs with
  | '.' :: r => (scanDigits r).map fun (ds, r) => (some ds, r)
  | _ => some (none, cs)

def scanExponent (cs : List Char) : Option (Option Int × List Char) :=
  let magnitude (r : List Char) : Option (Int × List Char) :=
    (scanDigits r).bind fun (ds, r) => (Numeral.natural? 10 ds).map fun n => ((n : Int), r)
  match cs with
  | c :: r =>
    if c = 'e' || c = 'E' then
      match r with
      | '-' :: r => (magnitude r).map fun (n, r) => (some (-n), r)
      | '+' :: r => (magnitude r).map fun (n, r) => (some n, r)
      | _ => (magnitude r).map fun (n, r) => (some n, r)
    else some (none, cs)
  | [] => some (none, cs)

/-- The integer of a sign and a magnitude, where it fits into 64 bits. -/
def integerOf? (negative : Bool) (n : Nat) : Option Int :=
  if negative then if 0 < n ∧ Int64.minValue.toInt ≤ -n then some (-n) else none
  else if n < UInt64.size then some n
  else none

/-- The number of its parts, if it is in range. -/
def numberOf? (negative : Bool) (whole : List Char) (fraction? : Option (List Char))
    (exponent? : Option Int) : Option Json :=
  let integer? : Option Int :=
    if fraction?.isNone ∧ exponent?.isNone then
      (Numeral.natural? 10 whole).bind (integerOf? negative)
    else none
  match integer? with
  | some n => some (integer n)
  | none =>
    (Double.ofDigits? negative whole (fraction?.getD []) (exponent?.getD 0)).map double

/-- A number; its whole part has no leading zero. -/
def scanNumber (cs : List Char) : Option (Json × List Char) :=
  let (negative, cs) := match cs with
    | '-' :: r => (true, r)
    | _ => (false, cs)
  (scanDigits cs).bind fun (whole, r) =>
    if whole.length ≠ 1 ∧ whole.head? = some '0' then none
    else
      (scanFraction r).bind fun (fraction?, r) =>
        (scanExponent r).bind fun (exponent?, r) =>
          (numberOf? negative whole fraction? exponent?).map fun v => (v, r)

def scanWord (word : String) (value : Json) (cs : List Char) : Option (Json × List Char) :=
  if word.toList.isPrefixOf cs then some (value, cs.drop word.toList.length) else none

mutual

/-- A value in front of which blanks may stand. -/
def scanValue (fuel : Nat) (cs : List Char) : Option (Json × List Char) :=
  match fuel with
  | 0 => none
  | fuel + 1 =>
    match skipBlanks cs with
    | 'n' :: r => scanWord "null" null ('n' :: r)
    | 't' :: r => scanWord "true" (bool true) ('t' :: r)
    | 'f' :: r => scanWord "false" (bool false) ('f' :: r)
    | '"' :: r => (scanString (r.length + 1) [] r).map fun (s, r) => (string s, r)
    | '[' :: r =>
      match skipBlanks r with
      | ']' :: r => some (array [], r)
      | _ => (scanItems fuel r).map fun (items, r) => (array items, r)
    | '{' :: r =>
      match skipBlanks r with
      | '}' :: r => some (ofFields [], r)
      | _ => (scanFields fuel r).map fun (fields, r) => (ofFields fields, r)
    | r => scanNumber r

def scanItems (fuel : Nat) (cs : List Char) : Option (List Json × List Char) :=
  match fuel with
  | 0 => none
  | fuel + 1 =>
    (scanValue fuel cs).bind fun (v, r) =>
      match skipBlanks r with
      | ',' :: r => (scanItems fuel r).map fun (vs, r) => (v :: vs, r)
      | ']' :: r => some ([v], r)
      | _ => none

def scanFields (fuel : Nat) (cs : List Char) : Option (List (String × Json) × List Char) :=
  match fuel with
  | 0 => none
  | fuel + 1 =>
    match skipBlanks cs with
    | '"' :: r =>
      (scanString (r.length + 1) [] r).bind fun (k, r) =>
        match skipBlanks r with
        | ':' :: r =>
          (scanValue fuel r).bind fun (v, r) =>
            match skipBlanks r with
            | ',' :: r => (scanFields fuel r).map fun (fs, r) => ((k, v) :: fs, r)
            | '}' :: r => some ([(k, v)], r)
            | _ => none
        | _ => none
    | _ => none

end

/-- The value of a text that holds nothing else. -/
def ofText? (s : String) : Option Json :=
  let cs := s.toList
  match scanValue (2 * cs.length + 1) cs with
  | some (v, r) => if (skipBlanks r).isEmpty then some v else none
  | none => none

end TaintFlow.Json
