import TaintFlow.Yaml.Quoted
import TaintFlow.Yaml.Scalar

/-!
# YAML documents that are one mapping

Reading a document that consists of one mapping from scalars to scalars, in block style, with a key
and a value on each line, or in flow style between braces. A question mark in front of a key lets
the key and its colon stand on lines of their own. Comments, blank lines, the marker `---`
in front and the marker `...` behind are passed over. A document without content is the empty
mapping, and a value without content is null. All else is refused: other documents, a second
document, and documents that are malformed. A byte order mark at the start of a line is passed over
but takes up a column, so that an entry behind it is indented by one more.

This is a part of YAML. Anchors, aliases, tags, block scalars and directives are not read.
-/
namespace TaintFlow.Yaml

/-- The entries of a mapping in the order in which they are written. -/
abbrev Mapping := List (Scalar × Scalar)

def isAllowed (c : Char) : Bool :=
  let n := c.toNat
  c = '\t' || c = '\n' || c = '\r' || (0x20 ≤ n && n ≤ 0x7E) || n = 0x85
    || (0xA0 ≤ n && n ≤ 0xFFFD) || 0x10000 ≤ n

/-- Write every line break as one newline. -/
def normalizeBreaks : List Char → List Char
  | [] => []
  | '\r' :: '\n' :: r => '\n' :: normalizeBreaks r
  | c :: r =>
    (if c = '\r' || c = '\u0085' || c = '\u2028' || c = '\u2029' then '\n' else c)
      :: normalizeBreaks r

def dropLine (cs : List Char) : List Char := (cs.dropWhile (· ≠ '\n')).drop 1

/-- Whether a blank, a break or the end comes first. -/
def blankFirst : List Char → Bool
  | [] => true
  | c :: _ => isBlank c || c = '\n'

/-- Whether nothing but blanks and a comment stands on the rest of the line. -/
def lineEnds (cs : List Char) : Bool :=
  match cs.dropWhile isBlank with
  | [] => true
  | c :: _ => c = '\n' || c = '#'

def byteOrderMark : Char := '\ufeff'

def dropMark (cs : List Char) : List Char := if cs.head? = some byteOrderMark then cs.drop 1 else cs

/-- Pass over the indentation of a line: spaces, with a byte order mark in front of them or not. -/
def dropIndent (cs : List Char) : List Char := (dropMark cs).dropWhile (· = ' ')

/-- The column in which the content of a line starts. -/
def indentation (cs : List Char) : Nat := cs.length - (dropIndent cs).length

/-- Whether the line holds nothing but its indentation and a comment. -/
def emptyLine (cs : List Char) : Bool :=
  match dropIndent cs with
  | [] => true
  | c :: _ => c = '\n' || c = '#'

def skipLines (fuel : Nat) (cs : List Char) : List Char :=
  match fuel, cs with
  | fuel + 1, _ :: _ => if emptyLine cs then skipLines fuel (dropLine cs) else cs
  | _, _ => cs

/-- Pass over the blank lines behind a plain scalar within a block mapping of this indentation, and
over a comment behind them. A tab may stand there where the scalar itself could go on. -/
def skipBlankLines (fuel : Nat) (indent : Nat) (cs : List Char) : List Char :=
  match fuel with
  | 0 => cs
  | fuel + 1 =>
    let spaces := cs.takeWhile (· = ' ')
    if (cs.drop spaces.length).head? = some '\t' && spaces.length ≤ indent then cs
    else
      match cs.dropWhile isBlank with
      | [] => []
      | '\n' :: r => skipBlankLines fuel indent r
      | '#' :: r => dropLine r
      | _ => cs

/-- What follows a marker at the start of a line. -/
def afterMarker? (marker : String) (cs : List Char) : Option (List Char) :=
  let rest := cs.drop marker.toList.length
  if marker.toList.isPrefixOf cs && blankFirst rest then some rest else none

def documentEnds (cs : List Char) : Bool :=
  cs.isEmpty || (afterMarker? "---" cs).isSome || (afterMarker? "..." cs).isSome

/-- Characters that start something other than a plain scalar. -/
def isIndicator (c : Char) : Bool := decide (c ∈ "-?:,[]\x7b\x7d#&*!|>'\"%@`".toList)

/-- Whether a plain scalar starts here. -/
def plainStarts (inFlow : Bool) : List Char → Bool
  | [] => false
  | c :: r =>
    if c = '-' then !blankFirst r
    else if c = '?' || c = ':' then !inFlow && !blankFirst r
    else !isIndicator c && !isBlank c && c ≠ '\n'

/-- Punctuation that ends a plain scalar within braces. -/
def isFlowPunctuation (c : Char) : Bool := decide (c ∈ ",[]\x7b\x7d".toList)

/-- The characters of a plain scalar on this line and what follows them. The scalar ends before a
colon with a blank behind it, before a comment, and within braces before punctuation; the colon
must not touch punctuation there. -/
def scanPlain (inFlow : Bool) : List Char → Option (List Char × List Char)
  | [] => some ([], [])
  | c :: r =>
    if c = '\n' then some ([], c :: r)
    else if c = ':' && blankFirst r then some ([], c :: r)
    else if inFlow && isFlowPunctuation c then some ([], c :: r)
    else if inFlow && c = ':' && (r.head?.any fun d => isFlowPunctuation d || d = '?') then none
    else if isBlank c && r.head? = some '#' then some ([], r)
    else (scanPlain inFlow r).map fun (cs, rest) => (c :: cs, rest)

def trimEnd (cs : List Char) : List Char := (cs.reverse.dropWhile isBlank).reverse

/-- Whether a plain scalar within braces goes on behind blanks and breaks. -/
def plainGoesOn (cs : List Char) : Bool :=
  match cs.dropWhile fun c => isBlank c || c = '\n' with
  | [] => false
  | c :: r => if c = ':' then !blankFirst r else !isFlowPunctuation c && c ≠ '#'

/-- Read a scalar, and give what follows. A plain scalar stands on one line. -/
def scanScalar (inFlow : Bool) (cs : List Char) : Option (Scalar × List Char) :=
  match cs with
  | '"' :: r => (scanDouble (r.length + 1) [] r).map fun (s, r) => (.quoted s, r)
  | '\'' :: r => (scanSingle (r.length + 1) [] r).map fun (s, r) => (.quoted s, r)
  | _ =>
    if plainStarts inFlow cs then
      (scanPlain inFlow cs).bind fun (s, r) =>
        if inFlow && plainGoesOn r then none
        else some (.plain (String.ofList (trimEnd s)), r)
    else none

/-- The longest way from the start of a key to its colon. -/
def maxKeyLength : Nat := 1024

/-- Read a key and the blanks behind it. A key with a colon stands on one line with it and starts
not too far in front of it. -/
def scanKey (inFlow : Bool) (cs : List Char) : Option (Scalar × List Char) :=
  (scanScalar inFlow cs).bind fun (key, r) =>
    let r := r.dropWhile isBlank
    let used := cs.take (cs.length - r.length)
    if r.head? = some ':' && ('\n' ∈ used || maxKeyLength < used.length) then none
    else some (key, r)

def emptyScalar : Scalar := .plain ""

/-- Read a value on the rest of a line within a block mapping of this indentation, and give the
lines behind it. -/
def scanLineValue (indent : Nat) (cs : List Char) : Option (Scalar × List Char) :=
  (scanScalar false cs).bind fun (value, r) =>
    if !lineEnds r then none
    else
      match value, r with
      | .plain _, '\n' :: r => some (value, skipBlankLines (r.length + 1) indent r)
      | _, _ => some (value, dropLine r)

/-- Read a value within a block mapping of this indentation, on the line of its key or below it, and
give the lines behind it. -/
def scanBlockValue (indent : Nat) (cs : List Char) : Option (Scalar × List Char) :=
  if lineEnds cs then
    let next := skipLines cs.length (dropLine cs)
    if documentEnds next || indentation next ≤ indent then some (emptyScalar, next)
    else scanLineValue indent (dropIndent next)
  else scanLineValue indent (cs.dropWhile isBlank)

/-- Read an entry of a block mapping whose key and colon stand on one line. -/
def scanPlainEntry (indent : Nat) (cs : List Char) : Option ((Scalar × Scalar) × List Char) :=
  (scanKey false cs).bind fun (key, r) =>
    match r with
    | ':' :: r =>
      if blankFirst r then (scanBlockValue indent r).map fun (value, r) => ((key, value), r)
      else none
    | _ => none

/-- Read a scalar behind an indicator, from which no tab may separate it. -/
def scanIndicated (indent : Nat) (cs : List Char) : Option (Scalar × List Char) :=
  if (cs.dropWhile (· = ' ')).head? = some '\t' then none else scanBlockValue indent cs

/-- Read an entry of a block mapping behind a question mark. The colon starts a line of the same
indentation; without one the value is null. -/
def scanMarkedEntry (indent : Nat) (cs : List Char) : Option ((Scalar × Scalar) × List Char) :=
  (scanIndicated indent cs).bind fun (key, r) =>
    let r := skipLines r.length r
    match dropIndent r with
    | ':' :: value =>
      if indentation r ≠ indent || !blankFirst value then none
      else (scanIndicated indent value).map fun (value, r) => ((key, value), r)
    | _ => some ((key, emptyScalar), r)

def scanEntry (indent : Nat) (cs : List Char) : Option ((Scalar × Scalar) × List Char) :=
  match cs with
  | '?' :: r => if blankFirst r then scanMarkedEntry indent r else scanPlainEntry indent cs
  | _ => scanPlainEntry indent cs

/-- Read the entries of a block mapping up to the end of the document. -/
def scanBlock (fuel : Nat) (indent : Nat) (cs : List Char) : Option (Mapping × List Char) :=
  match fuel with
  | 0 => none
  | fuel + 1 =>
    let cs := skipLines cs.length cs
    if documentEnds cs then some ([], cs)
    else if indentation cs ≠ indent then none
    else
      (scanEntry indent (dropIndent cs)).bind fun (entry, r) =>
        (scanBlock fuel indent r).map fun (entries, r) => (entry :: entries, r)

/-- Pass over blanks, breaks and comments within braces, and over byte order marks behind breaks. -/
def skipFlow (fuel : Nat) (cs : List Char) : List Char :=
  match fuel, cs with
  | fuel + 1, c :: r =>
    if isBlank c then skipFlow fuel r
    else if c = '\n' then skipFlow fuel (dropMark r)
    else if c = '#' then skipFlow fuel (r.dropWhile (· ≠ '\n'))
    else cs
  | _, _ => cs

/-- Read a key within braces. Behind a question mark it need not stand on one line with its
colon. -/
def scanFlowKey (cs : List Char) : Option (Scalar × List Char) :=
  match cs with
  | '?' :: r =>
    (scanScalar true (skipFlow r.length r)).map fun (key, r) => (key, skipFlow r.length r)
  | _ => scanKey true cs

/-- Read the value behind a key within braces: it is null where the key stands alone. -/
def scanFlowValue (cs : List Char) : Option (Scalar × List Char) :=
  match cs with
  | ':' :: r =>
    let r := skipFlow r.length r
    match r with
    | ',' :: _ => some (emptyScalar, r)
    | '}' :: _ => some (emptyScalar, r)
    | _ => scanScalar true r
  | _ => some (emptyScalar, cs)

def scanFlow (fuel : Nat) (cs : List Char) : Option (Mapping × List Char) :=
  match fuel with
  | 0 => none
  | fuel + 1 =>
    match skipFlow cs.length cs with
    | '}' :: r => some ([], r)
    | cs =>
      (scanFlowKey cs).bind fun (key, r) =>
        (scanFlowValue r).bind fun (value, r) =>
          match skipFlow r.length r with
          | ',' :: r => (scanFlow fuel r).map fun (entries, r) => ((key, value) :: entries, r)
          | '}' :: r => some ([(key, value)], r)
          | _ => none

/-- Whether nothing follows but empty lines and end markers. -/
def onlyEndMarkers (fuel : Nat) (cs : List Char) : Bool :=
  match fuel with
  | 0 => false
  | fuel + 1 =>
    let cs := skipLines cs.length cs
    if cs.isEmpty then true
    else
      match afterMarker? "..." cs with
      | some r => lineEnds r && onlyEndMarkers fuel (dropLine r)
      | none => false

/-- The mapping, if the document has no content behind it. -/
def closed (result : Option (Mapping × List Char)) : Option Mapping :=
  result.bind fun (entries, r) => if onlyEndMarkers (r.length + 1) r then some entries else none

/-- A mapping between braces, and the rest of its last line. -/
def flowDocument (cs : List Char) : Option (Mapping × List Char) :=
  (scanFlow (cs.length + 1) cs).bind fun (entries, r) =>
    if lineEnds r then some (entries, dropLine r) else none

/-- The content behind the start of a document. -/
def content (cs : List Char) : Option Mapping :=
  let cs := skipLines cs.length cs
  match dropIndent cs with
  | '{' :: r => closed (flowDocument r)
  | _ => closed (scanBlock (cs.length + 1) (indentation cs) cs)

/-- The document behind the marker `---`, whose own line may hold a mapping between braces. -/
def markedDocument (cs : List Char) : Option Mapping :=
  if lineEnds cs then content (dropLine cs)
  else
    match cs.dropWhile isBlank with
    | '{' :: r => closed (flowDocument r)
    | _ => none

/-- The document of a text whose breaks are newlines. -/
def document (cs : List Char) : Option Mapping :=
  let cs := skipLines cs.length cs
  match afterMarker? "---" cs with
  | some r => markedDocument r
  | none => if (afterMarker? "..." cs).isSome then none else content cs

/-- The mapping that a text consists of. -/
def Mapping.ofText? (s : String) : Option Mapping :=
  let cs := s.toList
  if cs.all isAllowed then document (normalizeBreaks cs) else none

end TaintFlow.Yaml
