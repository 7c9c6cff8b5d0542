import TaintFlow.Json.Parser
import TaintFlow.Json.Printer
import TaintFlow.Proofs.Text.Numeral

/-!
# Reading JSON text back

A value without numbers in point notation is read back from its compact text. The text may stand in
front of others, so the end of a value must show in what follows: behind a value there stands a
comma, a closing bracket or nothing. A string ends at its first quote that is not escaped.

Values are sorted by their texts to make an array a function of what it holds. Since the texts tell
the values apart, the order in which the values come does not show in the sorted array.
-/
namespace TaintFlow.Json

open Numeral (exists_toDigits_eq_cons toDigits_noLeadingZero)

/-- No number in the value is written with a point or an exponent or exceeds 64 bits, and the keys
of all objects ascend. -/
inductive Readable : Json → Prop
  | null : Readable null
  | bool (b : Bool) : Readable (bool b)
  | integer {n : Int} (hlow : Int64.minValue.toInt ≤ n) (hhigh : n < UInt64.size) :
      Readable (integer n)
  | string (s : String) : Readable (string s)
  | array {items : List Json} (h : ∀ v ∈ items, Readable v) : Readable (array items)
  | object {fields : List (String × Json)} (hkeys : Ascending compareKeys fields)
      (h : ∀ f ∈ fields, Readable f.2) : Readable (object fields)

section Strings

theorem controlEscape_eq {c : Char} (h : c.toNat < 0x20) :
    controlEscape c =
      ['\\', 'u', '0', '0', Nat.digitChar (c.toNat / 16), Nat.digitChar (c.toNat % 16)] := by
  have hall : ∀ n < 0x20, List.replicate (4 - (Nat.toDigits 16 n).length) '0' ++
      Nat.toDigits 16 n = ['0', '0', Nat.digitChar (n / 16), Nat.digitChar (n % 16)] := by decide
  exact congrArg (['\\', 'u'] ++ ·) (hall c.toNat h)

theorem scanUnicode_control {c : Char} (h : c.toNat < 0x20) (rest : List Char) :
    scanUnicode ('0' :: '0' :: Nat.digitChar (c.toNat / 16) :: Nat.digitChar (c.toNat % 16)
      :: rest) = some (c, rest) := by
  have hall : ∀ n < 0x20, Numeral.natural? 16
      ['0', '0', Nat.digitChar (n / 16), Nat.digitChar (n % 16)] = some n := by decide
  simp only [scanUnicode, scanHex4, hall c.toNat h, Option.map_some, Option.bind_some]
  rw [if_neg (by omega), if_neg (by omega), Char.ofNat_toNat]

/-- One character reads back from its escape. -/
theorem scanString_escapeChar (fuel : Nat) (read : List Char) (c : Char) (rest : List Char) :
    scanString (fuel + 1) read (escapeChar c ++ rest) = scanString fuel (c :: read) rest := by
  unfold escapeChar
  split
  iterate 7 · simp [scanString, simpleEscape?]
  · rename_i hquote hslash _ _ _ _ _
    split
    · rename_i hcontrol
      rw [controlEscape_eq hcontrol]
      simp [scanString, scanUnicode_control hcontrol]
    · rename_i hcontrol
      have hplain : ¬(decide (c.toNat < 0x20) || decide (c = '\\')) = true := by
        simp only [Bool.or_eq_true, decide_eq_true_eq]
        exact fun h => h.elim hcontrol hslash
      rw [List.cons_append, List.nil_append, scanString, if_neg hplain]
      · exact hquote
      · exact fun _ h _ => hslash h
      · exact fun _ _ h _ => hslash h

theorem scanString_escaped (cs rest read : List Char) {fuel : Nat} (h : cs.length < fuel) :
    scanString fuel read (cs.flatMap escapeChar ++ '"' :: rest) =
      some (String.ofList (read.reverse ++ cs), rest) := by
  induction cs generalizing fuel read with
  | nil =>
    obtain ⟨fuel, rfl⟩ := Nat.exists_eq_add_one_of_ne_zero (Nat.ne_of_gt h)
    simp [scanString]
  | cons c cs ih =>
    obtain ⟨fuel, rfl⟩ : ∃ n, fuel = n + 1 := Nat.exists_eq_add_one_of_ne_zero (by omega)
    rw [List.flatMap_cons, List.append_assoc, scanString_escapeChar,
      ih _ (by simpa using h)]
    simp

/-- The characters of a string's text behind the opening quote. -/
def quotedTail (s : String) : List Char := s.toList.flatMap escapeChar ++ ['"']

theorem toList_stringText (s : String) : (stringText s).toList = '"' :: quotedTail s := by
  simp [stringText, quotedTail]

theorem length_le_flatMap_escapeChar (cs : List Char) :
    cs.length ≤ (cs.flatMap escapeChar).length := by
  have hchar : ∀ c, 1 ≤ (escapeChar c).length := by
    intro c
    unfold escapeChar
    split
    iterate 7 · simp
    · split
      · simp [controlEscape]
      · simp
  induction cs with
  | nil => simp
  | cons c cs ih =>
    have := hchar c
    simp only [List.flatMap_cons, List.length_append, List.length_cons]
    omega

theorem scanString_quotedTail (s : String) (rest : List Char) {fuel : Nat}
    (h : (quotedTail s).length ≤ fuel) :
    scanString fuel [] (quotedTail s ++ rest) = some (s, rest) := by
  have hlength := length_le_flatMap_escapeChar s.toList
  have htail : quotedTail s ++ rest = s.toList.flatMap escapeChar ++ '"' :: rest := by
    simp [quotedTail]
  rw [htail, scanString_escaped]
  · simp
  · simp only [quotedTail, List.length_append, List.length_cons] at h
    omega

end Strings

/-- What may follow a value. -/
def Stops (rest : List Char) : Prop := ∀ c, rest.head? = some c → c ∈ [',', ']', '}']

theorem stops_cons {c : Char} {rest : List Char} (h : c ∈ [',', ']', '}']) : Stops (c :: rest) := by
  intro d hd
  cases hd
  exact h

theorem skipBlanks_cons {c : Char} (h : isBlank c = false) (cs : List Char) :
    skipBlanks (c :: cs) = c :: cs := by
  simp [skipBlanks, h]

section Numbers

/-- The digits of a natural number end where a value may end. -/
theorem scanDigits_toDigits (n : Nat) {rest : List Char} (hrest : Stops rest) :
    scanDigits (Nat.toDigits 10 n ++ rest) = some (Nat.toDigits 10 n, rest) := by
  have hdigit : ∀ c ∈ Nat.toDigits 10 n, c.isDigit = true := fun c hc =>
    Nat.isDigit_of_mem_toDigits (by decide) (by decide) hc
  have hstop : rest.takeWhile Char.isDigit = [] ∧ rest.dropWhile Char.isDigit = rest := by
    cases rest with
    | nil => simp
    | cons c rest =>
      have hc : c.isDigit = false := by
        have := hrest c rfl
        simp only [List.mem_cons, List.not_mem_nil, or_false] at this
        rcases this with rfl | rfl | rfl <;> decide
      simp [hc]
  unfold scanDigits
  rw [List.takeWhile_append_of_pos hdigit, List.dropWhile_append_of_pos hdigit, hstop.1, hstop.2,
    List.append_nil]
  split
  · rename_i hnil
    exact absurd hnil Nat.toDigits_ne_nil
  · rfl

theorem scanFraction_stops {rest : List Char} (hrest : Stops rest) :
    scanFraction rest = some (none, rest) := by
  unfold scanFraction
  split
  · have := hrest '.' rfl
    simp at this
  · rfl

theorem scanExponent_stops {rest : List Char} (hrest : Stops rest) :
    scanExponent rest = some (none, rest) := by
  cases rest with
  | nil => rfl
  | cons c rest =>
    have hc : (c = 'e' || c = 'E') = false := by
      have := hrest c rfl
      simp only [List.mem_cons, List.not_mem_nil, or_false] at this
      rcases this with rfl | rfl | rfl <;> decide
    simp [scanExponent, hc]

theorem toList_text_integer (n : Int) :
    (text (integer n)).toList =
      if n < 0 then '-' :: Nat.toDigits 10 n.natAbs else Nat.toDigits 10 n.natAbs := by
  cases n with
  | ofNat n => simp [text, Int.toString_eq_repr, Int.repr]
  | negSucc n => simp [text, Int.toString_eq_repr, Int.repr, Int.negSucc_lt_zero]

/-- A number of 64 bits, signed or unsigned, is read back. -/
theorem scanNumber_integer {n : Int} (hlow : Int64.minValue.toInt ≤ n) (hhigh : n < UInt64.size)
    {rest : List Char} (hrest : Stops rest) :
    scanNumber ((text (integer n)).toList ++ rest) = some (integer n, rest) := by
  have hdigits := scanDigits_toDigits n.natAbs hrest
  have hvalue : numberOf? (decide (n < 0)) (Nat.toDigits 10 n.natAbs) none none =
      some (integer n) := by
    simp only [numberOf?, Option.isNone_none, and_self, if_true, Numeral.natural?_toDigits,
      Option.bind_some, integerOf?]
    by_cases hsign : n < 0
    · have hback : -(n.natAbs : Int) = n := by omega
      rw [decide_eq_true hsign, if_pos rfl, hback, if_pos ⟨by omega, hlow⟩]
    · have hback : (n.natAbs : Int) = n := by omega
      rw [decide_eq_false hsign, if_neg (by decide), if_pos (by omega), hback]
  unfold scanNumber
  rw [toList_text_integer]
  by_cases hsign : n < 0
  · rw [decide_eq_true hsign] at hvalue
    simp only [hsign, if_true, List.cons_append, hdigits, Option.bind_some, hvalue,
      if_neg (toDigits_noLeadingZero _), scanFraction_stops hrest, scanExponent_stops hrest,
      Option.map_some]
  · rw [decide_eq_false hsign] at hvalue
    have hunsigned : ∀ r, Nat.toDigits 10 n.natAbs ++ rest ≠ '-' :: r := by
      intro r h
      obtain ⟨c, cs, hcs, hc⟩ := exists_toDigits_eq_cons n.natAbs
      rw [hcs] at h
      rw [(List.cons.inj h).1] at hc
      exact absurd hc (by decide)
    rw [if_neg hsign]
    split
    rename_i negative cs hparts
    split at hparts
    · rename_i r hminus
      exact absurd hminus (hunsigned r)
    · cases hparts
      simp only [hdigits, Option.bind_some, hvalue,
        if_neg (toDigits_noLeadingZero _), scanFraction_stops hrest, scanExponent_stops hrest,
        Option.map_some]

end Numbers

section Objects

/-- What is above all others is put at the end. -/
theorem insert_of_above {α : Type} {cmp : α → α → Ordering} [Std.OrientedCmp cmp] {x : α}
    {l : List α} (h : ∀ y ∈ l, cmp y x = .lt) : Ascending.insert cmp x l = l ++ [x] := by
  induction l with
  | nil => rfl
  | cons y r ih =>
    have hgt : cmp x y = .gt := Std.OrientedCmp.gt_of_lt (h y (by simp))
    simp only [Ascending.insert, hgt, ih fun z hz => h z (by simp [hz]), List.cons_append]

theorem entries_foldl_insert (fields : List (String × Json)) (m : SortedMap String Json)
    (h : Ascending compareKeys (m.entries ++ fields)) :
    (fields.foldl (fun m (k, v) => m.insert k v) m).entries = m.entries ++ fields := by
  induction fields generalizing m with
  | nil => simp
  | cons f fields ih =>
    have habove : ∀ e ∈ m.entries, compareKeys e f = .lt := fun e he =>
      (List.pairwise_append.1 h).2.2 e he f (by simp)
    have hinsert : (m.insert f.1 f.2).entries = m.entries ++ [f] := insert_of_above habove
    rw [List.foldl_cons, ih _ (by rw [hinsert, List.append_assoc]; exact h), hinsert,
      List.append_assoc, List.singleton_append]

/-- Fields whose keys ascend are the fields of their object. -/
theorem ofFields_eq_object {fields : List (String × Json)} (h : Ascending compareKeys fields) :
    ofFields fields = object fields :=
  congrArg object (entries_foldl_insert fields ∅ h)

end Objects

section Values

/-- The characters of a value's text. -/
def chars (v : Json) : List Char := (text v).toList

theorem itemTexts_eq_map (items : List Json) : itemTexts items = items.map text := by
  induction items with
  | nil => rfl
  | cons v items ih => rw [itemTexts, ih, List.map_cons]

/-- The characters of a field: its key in quotes, a colon and its value. -/
def fieldChars (f : String × Json) : List Char := '"' :: quotedTail f.1 ++ ':' :: chars f.2

theorem map_toList_fieldTexts (fields : List (String × Json)) :
    (fieldTexts fields).map String.toList = fields.map fieldChars := by
  induction fields with
  | nil => rfl
  | cons f fields ih =>
    simp [fieldTexts, ih, fieldChars, chars, toList_stringText]

theorem length_chars_lt_fieldChars (f : String × Json) :
    (chars f.2).length < (fieldChars f).length := by
  simp only [fieldChars, List.length_append, List.length_cons]
  omega

theorem chars_array (items : List Json) :
    chars (array items) = '[' :: ([','].intercalate (items.map chars) ++ [']']) := by
  have hitems : (items.map text).map String.toList = items.map chars := List.map_map
  simp [chars, text, itemTexts_eq_map, String.toList_intercalate, hitems]

theorem chars_object (fields : List (String × Json)) :
    chars (object fields) = '{' :: ([','].intercalate (fields.map fieldChars) ++ ['}']) := by
  simp [chars, text, String.toList_intercalate, map_toList_fieldTexts]

/-- The text of the value stands for the value, whatever follows it. -/
def ReadsBack (v : Json) : Prop := ∀ (fuel : Nat) (rest : List Char), Stops rest →
  2 * (chars v).length ≤ fuel → scanValue fuel (chars v ++ rest) = some (v, rest)

theorem exists_chars_integer_eq_cons (n : Int) :
    ∃ c cs, chars (integer n) = c :: cs ∧ (c = '-' ∨ c.isDigit = true) := by
  obtain ⟨c, cs, hcs, hc⟩ := exists_toDigits_eq_cons n.natAbs
  rw [chars, toList_text_integer]
  by_cases hsign : n < 0
  · exact ⟨'-', _, if_pos hsign, .inl rfl⟩
  · exact ⟨c, cs, (if_neg hsign).trans hcs, .inr hc⟩

/-- What starts a value is neither a blank nor a closing bracket. -/
theorem exists_chars_eq_cons {v : Json} (h : Readable v) :
    ∃ c cs, chars v = c :: cs ∧ isBlank c = false ∧ c ≠ ']' := by
  cases h with
  | null => exact ⟨'n', _, rfl, rfl, by decide⟩
  | bool b => cases b with
    | false => exact ⟨'f', _, rfl, rfl, by decide⟩
    | true => exact ⟨'t', _, rfl, rfl, by decide⟩
  | @integer n =>
    obtain ⟨c, cs, hcs, hc⟩ := exists_chars_integer_eq_cons n
    have hne : ∀ d : Char, ¬(d = '-' ∨ d.isDigit = true) → c ≠ d := fun d hd h => hd (h ▸ hc)
    exact ⟨c, cs, hcs,
      by simp [isBlank, hne ' ' (by decide), hne '\t' (by decide), hne '\n' (by decide),
        hne '\r' (by decide)],
      hne ']' (by decide)⟩
  | string s => exact ⟨'"', _, toList_stringText s, rfl, by decide⟩
  | @array items => exact ⟨'[', _, chars_array items, rfl, by decide⟩
  | @object fields => exact ⟨'{', _, chars_object fields, rfl, by decide⟩

theorem scanValue_integer {n : Int} (hlow : Int64.minValue.toInt ≤ n) (hhigh : n < UInt64.size)
    (fuel : Nat) {rest : List Char} (hrest : Stops rest) :
    scanValue (fuel + 1) (chars (integer n) ++ rest) = some (integer n, rest) := by
  have hnumber := scanNumber_integer hlow hhigh hrest
  obtain ⟨c, cs, hcs, hc⟩ := exists_chars_integer_eq_cons n
  have hne : ∀ d : Char, ¬(d = '-' ∨ d.isDigit = true) → c ≠ d := fun d hd h => hd (h ▸ hc)
  have hblank : isBlank c = false := by
    simp [isBlank, hne ' ' (by decide), hne '\t' (by decide), hne '\n' (by decide),
      hne '\r' (by decide)]
  change scanNumber (chars (integer n) ++ rest) = _ at hnumber
  rw [hcs, List.cons_append] at hnumber ⊢
  simp only [scanValue, skipBlanks_cons hblank]
  split
  iterate 6 · rename_i heq; exact absurd (List.cons.inj heq).1 (hne _ (by decide))
  exact hnumber

theorem scanValue_string (s : String) (fuel : Nat) (rest : List Char) :
    scanValue (fuel + 1) (chars (string s) ++ rest) = some (string s, rest) := by
  have hchars : chars (string s) = '"' :: quotedTail s := toList_stringText s
  have hquoted : scanString ((quotedTail s ++ rest).length + 1) [] (quotedTail s ++ rest) =
      some (s, rest) :=
    scanString_quotedTail s rest (by simp only [List.length_append]; omega)
  rw [hchars, List.cons_append, scanValue, skipBlanks_cons (c := '"') rfl]
  simp only [hquoted, Option.map_some]

theorem scanItems_chars {v : Json} {vs : List Json} (h : ∀ w ∈ v :: vs, ReadsBack w) (fuel : Nat)
    (rest : List Char) (hfuel : 2 * ([','].intercalate ((v :: vs).map chars)).length + 2 ≤ fuel) :
    scanItems fuel ([','].intercalate ((v :: vs).map chars) ++ ']' :: rest) =
      some (v :: vs, rest) := by
  induction vs generalizing v fuel with
  | nil =>
    obtain ⟨fuel, rfl⟩ : ∃ n, fuel = n + 1 := Nat.exists_eq_add_one_of_ne_zero (by omega)
    simp only [List.map_cons, List.map_nil, List.intercalate_singleton] at hfuel ⊢
    have hvalue := h v (by simp) fuel (']' :: rest) (stops_cons (by simp)) (by omega)
    simp [scanItems, hvalue, skipBlanks_cons (c := ']') rfl]
  | cons w ws ih =>
    obtain ⟨fuel, rfl⟩ : ∃ n, fuel = n + 1 := Nat.exists_eq_add_one_of_ne_zero (by omega)
    simp only [List.map_cons, List.intercalate_cons_cons, List.length_append, List.length_cons,
      List.length_nil] at hfuel ⊢
    simp only [List.append_assoc, List.cons_append, List.nil_append]
    have hvalue := h v (by simp) fuel (',' :: ([','].intercalate ((w :: ws).map chars) ++
      ']' :: rest)) (stops_cons (by simp)) (by omega)
    have hrest := ih (v := w) (fun u hu => h u (by simp [hu])) fuel
      (by simp only [List.map_cons]; omega)
    rw [List.map_cons] at hvalue hrest
    simp [scanItems, hvalue, skipBlanks_cons (c := ',') rfl, hrest]

/-- The field, and the others as far as what stands behind it announces them. -/
def scanBehindField (fuel : Nat) (f : String × Json) (rest : List Char) :
    Option (List (String × Json) × List Char) :=
  match skipBlanks rest with
  | ',' :: r => (scanFields fuel r).map fun (fs, r) => (f :: fs, r)
  | '}' :: r => some ([f], r)
  | _ => none

theorem scanFields_fieldChars {f : String × Json} {fuel : Nat} {rest : List Char}
    (h : scanValue fuel (chars f.2 ++ rest) = some (f.2, rest)) :
    scanFields (fuel + 1) (fieldChars f ++ rest) = scanBehindField fuel f rest := by
  have hkey : scanString ((quotedTail f.1 ++ ':' :: (chars f.2 ++ rest)).length + 1) []
      (quotedTail f.1 ++ ':' :: (chars f.2 ++ rest)) =
        some (f.1, ':' :: (chars f.2 ++ rest)) :=
    scanString_quotedTail f.1 _ (by simp only [List.length_append]; omega)
  have htext : fieldChars f ++ rest =
      '"' :: (quotedTail f.1 ++ ':' :: (chars f.2 ++ rest)) := by
    simp [fieldChars]
  rw [htext, scanFields, skipBlanks_cons (c := '"') rfl]
  simp only [hkey, Option.bind_some, skipBlanks_cons (c := ':') rfl, h]
  rfl

theorem scanFields_chars {f : String × Json} {fs : List (String × Json)}
    (h : ∀ g ∈ f :: fs, ReadsBack g.2) (fuel : Nat) (rest : List Char)
    (hfuel : 2 * ([','].intercalate ((f :: fs).map fieldChars)).length + 2 ≤ fuel) :
    scanFields fuel ([','].intercalate ((f :: fs).map fieldChars) ++ '}' :: rest) =
      some (f :: fs, rest) := by
  induction fs generalizing f fuel with
  | nil =>
    obtain ⟨fuel, rfl⟩ : ∃ n, fuel = n + 1 := Nat.exists_eq_add_one_of_ne_zero (by omega)
    simp only [List.map_cons, List.map_nil, List.intercalate_singleton] at hfuel ⊢
    have hlength := length_chars_lt_fieldChars f
    have hvalue := h f (by simp) fuel ('}' :: rest) (stops_cons (by simp)) (by omega)
    rw [scanFields_fieldChars hvalue]
    simp [scanBehindField, skipBlanks_cons (c := '}') rfl]
  | cons g gs ih =>
    obtain ⟨fuel, rfl⟩ : ∃ n, fuel = n + 1 := Nat.exists_eq_add_one_of_ne_zero (by omega)
    simp only [List.map_cons, List.intercalate_cons_cons, List.length_append, List.length_cons,
      List.length_nil] at hfuel ⊢
    simp only [List.append_assoc, List.cons_append, List.nil_append]
    have hlength := length_chars_lt_fieldChars f
    have hvalue := h f (by simp) fuel (',' :: ([','].intercalate ((g :: gs).map fieldChars) ++
      '}' :: rest)) (stops_cons (by simp)) (by omega)
    have hrest := ih (f := g) (fun e he => h e (by simp [he])) fuel
      (by simp only [List.map_cons]; omega)
    rw [List.map_cons] at hvalue hrest
    rw [scanFields_fieldChars hvalue]
    simp [scanBehindField, skipBlanks_cons (c := ',') rfl, hrest]

theorem scanValue_array {items : List Json} (h : ∀ v ∈ items, Readable v)
    (hread : ∀ v ∈ items, ReadsBack v) {fuel : Nat} (rest : List Char)
    (hfuel : 2 * (chars (array items)).length ≤ fuel + 1) :
    scanValue (fuel + 1) (chars (array items) ++ rest) = some (array items, rest) := by
  rw [chars_array] at hfuel ⊢
  rw [List.cons_append, List.append_assoc, List.singleton_append, scanValue,
    skipBlanks_cons (c := '[') rfl]
  cases items with
  | nil => simp [skipBlanks_cons (c := ']') rfl]
  | cons v vs =>
    simp only [List.length_append, List.length_cons, List.length_nil] at hfuel
    have hitems := scanItems_chars hread fuel rest (by omega)
    obtain ⟨c, cs, hcs, hblank, hclose⟩ := exists_chars_eq_cons (h v (by simp))
    have hfront : ∃ r, [','].intercalate ((v :: vs).map chars) ++ ']' :: rest = c :: r := by
      cases vs <;> simp [hcs]
    obtain ⟨r, hr⟩ := hfront
    rw [hr] at hitems ⊢
    simp only [skipBlanks_cons hblank]
    split
    · rename_i heq
      exact absurd (List.cons.inj heq).1 hclose
    · rw [hitems, Option.map_some]

theorem scanValue_object {fields : List (String × Json)} (hkeys : Ascending compareKeys fields)
    (hread : ∀ f ∈ fields, ReadsBack f.2) {fuel : Nat} (rest : List Char)
    (hfuel : 2 * (chars (object fields)).length ≤ fuel + 1) :
    scanValue (fuel + 1) (chars (object fields) ++ rest) = some (object fields, rest) := by
  rw [chars_object] at hfuel ⊢
  rw [List.cons_append, List.append_assoc, List.singleton_append, scanValue,
    skipBlanks_cons (c := '{') rfl]
  cases fields with
  | nil => simp [skipBlanks_cons (c := '}') rfl, ofFields_eq_object hkeys]
  | cons f fs =>
    simp only [List.length_append, List.length_cons, List.length_nil] at hfuel
    have hfields := scanFields_chars hread fuel rest (by omega)
    have hfront : ∃ r, [','].intercalate ((f :: fs).map fieldChars) ++ '}' :: rest = '"' :: r := by
      cases fs <;> simp [fieldChars]
    obtain ⟨r, hr⟩ := hfront
    rw [hr] at hfields ⊢
    simp only [skipBlanks_cons (c := '"') rfl, hfields, Option.map_some, ofFields_eq_object hkeys]
    rfl

theorem ReadsBack.of_succ {v : Json} (hv : Readable v)
    (h : ∀ (fuel : Nat) (rest : List Char), Stops rest → 2 * (chars v).length ≤ fuel + 1 →
      scanValue (fuel + 1) (chars v ++ rest) = some (v, rest)) : ReadsBack v := by
  intro fuel rest hrest hfuel
  obtain ⟨c, cs, hcs, -⟩ := exists_chars_eq_cons hv
  rw [hcs, List.length_cons] at hfuel
  obtain ⟨fuel, rfl⟩ : ∃ n, fuel = n + 1 := Nat.exists_eq_add_one_of_ne_zero (by omega)
  exact h fuel rest hrest (by rw [hcs, List.length_cons]; exact hfuel)

/-- Every readable value is read back from its text. -/
theorem readsBack {v : Json} (h : Readable v) : ReadsBack v := by
  induction h with
  | null =>
    refine .of_succ .null fun fuel rest _ _ => ?_
    change scanValue (fuel + 1) ('n' :: 'u' :: 'l' :: 'l' :: rest) = _
    simp [scanValue, skipBlanks_cons (c := 'n') rfl, scanWord]
  | bool b =>
    refine .of_succ (.bool b) fun fuel rest _ _ => ?_
    cases b with
    | false =>
      change scanValue (fuel + 1) ('f' :: 'a' :: 'l' :: 's' :: 'e' :: rest) = _
      simp [scanValue, skipBlanks_cons (c := 'f') rfl, scanWord]
    | true =>
      change scanValue (fuel + 1) ('t' :: 'r' :: 'u' :: 'e' :: rest) = _
      simp [scanValue, skipBlanks_cons (c := 't') rfl, scanWord]
  | integer hlow hhigh =>
    exact .of_succ (.integer hlow hhigh) fun fuel _ hrest _ =>
      scanValue_integer hlow hhigh fuel hrest
  | string s => exact .of_succ (.string s) fun fuel rest _ _ => scanValue_string s fuel rest
  | array h ih =>
    exact .of_succ (.array h) fun _ rest _ hfuel => scanValue_array h ih rest hfuel
  | object hkeys h ih =>
    exact .of_succ (.object hkeys h) fun _ rest _ hfuel => scanValue_object hkeys ih rest hfuel

/-- The text of a readable value is a text of that value. -/
theorem ofText?_text {v : Json} (h : Readable v) : ofText? (text v) = some v := by
  have hvalue := readsBack h (2 * (chars v).length + 1) [] (by simp [Stops]) (by omega)
  have htext : (text v).toList = chars v := rfl
  rw [List.append_nil, ← htext] at hvalue
  simp only [ofText?, hvalue]
  rfl

/-- The texts of readable values tell them apart. -/
theorem eq_of_text_eq {v w : Json} (hv : Readable v) (hw : Readable w)
    (h : text v = text w) : v = w := by
  have hread := ofText?_text hv
  rw [h, ofText?_text hw] at hread
  exact (Option.some.inj hread).symm

end Values

section Sorted

theorem sortByText_perm (vs : List Json) : (sortByText vs).Perm vs := by
  unfold sortByText
  have h := (List.mergeSort_perm (vs.map fun v => (text v, v))
    fun a b => decide (a.1 ≤ b.1)).map Prod.snd
  rwa [List.map_map, show (Prod.snd ∘ fun v => (text v, v)) = id from rfl, List.map_id] at h

/-- The order of the texts that stand before the values. -/
def textLe (a b : String × Json) : Bool := decide (a.1 ≤ b.1)

theorem textLe_trans (a b c : String × Json) (hab : textLe a b = true) (hbc : textLe b c = true) :
    textLe a c = true :=
  decide_eq_true (String.le_trans (of_decide_eq_true hab) (of_decide_eq_true hbc))

theorem textLe_total (a b : String × Json) : (textLe a b || textLe b a) = true := by
  simpa [textLe] using String.le_total a.1 b.1

theorem sortByText_pairwise (vs : List Json) :
    (sortByText vs).Pairwise fun v w => text v ≤ text w := by
  have hsorted := List.pairwise_mergeSort textLe_trans textLe_total (vs.map fun v => (text v, v))
  have hkey : ∀ e ∈ (vs.map fun v => (text v, v)).mergeSort textLe, e.1 = text e.2 := by
    intro e he
    obtain ⟨v, -, rfl⟩ := List.mem_map.1 ((List.mergeSort_perm _ _).mem_iff.1 he)
    rfl
  refine List.pairwise_map.2 (hsorted.imp_of_mem fun ha hb hab => ?_)
  rw [← hkey _ ha, ← hkey _ hb]
  exact of_decide_eq_true hab

/-- The sorted values do not tell in which order the values came. -/
theorem sortByText_eq_of_perm {vs ws : List Json} (hperm : vs.Perm ws)
    (hreadable : ∀ v ∈ vs, Readable v) : sortByText vs = sortByText ws := by
  refine List.Perm.eq_of_pairwise (fun v w hv hw hvw hwv => ?_) (sortByText_pairwise vs)
    (sortByText_pairwise ws)
    ((sortByText_perm vs).trans (hperm.trans (sortByText_perm ws).symm))
  have hvReadable := hreadable v ((sortByText_perm vs).mem_iff.1 hv)
  have hwReadable := hreadable w (hperm.mem_iff.2 ((sortByText_perm ws).mem_iff.1 hw))
  exact eq_of_text_eq hvReadable hwReadable (String.le_antisymm hvw hwv)

end Sorted

end TaintFlow.Json
