import TaintFlow.Text.Numeral

/-!
# Quoted YAML scalars

The content of a scalar between single or double quotes. It may go on over several lines: the blanks
around a line break are dropped, one break becomes a space, and of several breaks all but the first
remain. Between single quotes a quote is written twice; between double quotes a backslash starts an
escape, and one at the end of a line joins the line to the next.
-/
namespace TaintFlow.Yaml

def isBlank (c : Char) : Bool := c = ' ' || c = '\t'

/-- Pass over blanks and breaks, and count the breaks. -/
def skipBreaks : List Char → Nat × List Char
  | [] => (0, [])
  | c :: r =>
    if c = '\n' then ((skipBreaks r).1 + 1, (skipBreaks r).2)
    else if isBlank c then skipBreaks r
    else (0, c :: r)

/-- What `breaks` line breaks within a scalar leave behind. -/
def folded (breaks : Nat) : List Char :=
  if breaks = 1 then [' '] else List.replicate (breaks - 1) '\n'

/-- The character of an escape that consists of one letter. -/
def escape? : Char → Option Char
  | '0' => some '\x00'
  | 'a' => some '\x07'
  | 'b' => some '\x08'
  | 't' => some '\t'
  | '\t' => some '\t'
  | 'n' => some '\n'
  | 'v' => some '\x0b'
  | 'f' => some '\x0c'
  | 'r' => some '\r'
  | 'e' => some '\x1b'
  | ' ' => some ' '
  | '"' => some '"'
  | '/' => some '/'
  | '\\' => some '\\'
  | 'N' => some '\u0085'
  | '_' => some '\u00a0'
  | 'L' => some '\u2028'
  | 'P' => some '\u2029'
  | _ => none

/-- The number of hexadecimal digits behind the letter of an escape. -/
def escapeWidth? : Char → Option Nat
  | 'x' => some 2
  | 'u' => some 4
  | 'U' => some 8
  | _ => none

/-- The character with the code point that the digits denote. -/
def codePoint? (digits : List Char) : Option Char :=
  (Numeral.natural? 16 digits).bind fun n => if n.isValidChar then some (Char.ofNat n) else none

/-- Content up to a closing double quote, and what follows; `read` is what was read, in reverse. -/
def scanDouble (fuel : Nat) (read : List Char) (cs : List Char) : Option (String × List Char) :=
  match fuel, cs with
  | 0, _ => none
  | _, [] => none
  | _, '"' :: r => some (String.ofList read.reverse, r)
  | fuel + 1, '\\' :: '\n' :: r =>
    let (breaks, r) := skipBreaks r
    scanDouble fuel (List.replicate breaks '\n' ++ read) r
  | fuel + 1, '\\' :: c :: r =>
    match escapeWidth? c with
    | some width =>
      if r.length < width then none
      else (codePoint? (r.take width)).bind fun c => scanDouble fuel (c :: read) (r.drop width)
    | none => (escape? c).bind fun c => scanDouble fuel (c :: read) r
  | fuel + 1, c :: r =>
    if c = '\n' then
      let (breaks, r) := skipBreaks r
      scanDouble fuel ((folded (breaks + 1)).reverse ++ read.dropWhile isBlank) r
    else if c = '\\' then none
    else scanDouble fuel (c :: read) r

/-- Content up to a closing single quote, and what follows; `read` is what was read, in reverse. -/
def scanSingle (fuel : Nat) (read : List Char) (cs : List Char) : Option (String × List Char) :=
  match fuel, cs with
  | 0, _ => none
  | _, [] => none
  | fuel + 1, '\'' :: '\'' :: r => scanSingle fuel ('\'' :: read) r
  | _, '\'' :: r => some (String.ofList read.reverse, r)
  | fuel + 1, c :: r =>
    if c = '\n' then
      let (breaks, r) := skipBreaks r
      scanSingle fuel ((folded (breaks + 1)).reverse ++ read.dropWhile isBlank) r
    else scanSingle fuel (c :: read) r

end TaintFlow.Yaml
