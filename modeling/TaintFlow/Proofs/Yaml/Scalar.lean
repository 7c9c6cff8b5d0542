import TaintFlow.Yaml.Mapping

/-!
# The writing of YAML scalars

Rules for the text of a scalar on one line, which know nothing of the reader: it is plain, or stands
between single or double quotes. Each text that the rules give is read back as its scalar, in block
style and in flow style, whatever follows that may follow a scalar.
-/
namespace TaintFlow.Yaml

/-- Characters that may stand anywhere in a plain scalar. -/
def isPlainChar (c : Char) : Bool :=
  c ≠ '\n' && c ≠ ':' && c ≠ '#' && !isFlowPunctuation c

/-- Characters that a plain scalar may start with. -/
def isStartChar (c : Char) : Bool :=
  !isIndicator c && !isBlank c && c ≠ '\n' && c ≠ byteOrderMark

/-- A plain scalar. It does not start or end with a blank, and starts with an indicator only if this
is a dash in front of a further character. -/
structure PlainText (cs : List Char) : Prop where
  chars : ∀ c ∈ cs, isPlainChar c
  starts : ∃ c r, cs = c :: r ∧ (isStartChar c ∨ c = '-' ∧ blankFirst r = false)
  ends : ∃ c r, cs = r ++ [c] ∧ isBlank c = false

/-- What may stand between single quotes, and what it denotes. -/
inductive SingleText : List Char → List Char → Prop
  | nil : SingleText [] []
  | char {c : Char} {cs s : List Char} : c ≠ '\'' → c ≠ '\n' → SingleText cs s →
      SingleText (c :: cs) (c :: s)
  | quote {cs s : List Char} : SingleText cs s → SingleText ('\'' :: '\'' :: cs) ('\'' :: s)

/-- What may stand between double quotes, and what it denotes. -/
inductive DoubleText : List Char → List Char → Prop
  | nil : DoubleText [] []
  | char {c : Char} {cs s : List Char} : c ≠ '"' → c ≠ '\\' → c ≠ '\n' → DoubleText cs s →
      DoubleText (c :: cs) (c :: s)
  | escape {e c : Char} {cs s : List Char} : escape? e = some c → DoubleText cs s →
      DoubleText ('\\' :: e :: cs) (c :: s)
  | code {e c : Char} {digits cs s : List Char} : escapeWidth? e = some digits.length →
      codePoint? digits = some c → DoubleText cs s →
      DoubleText ('\\' :: e :: (digits ++ cs)) (c :: s)

/-- The text of a scalar on one line. -/
inductive ScalarText : List Char → Scalar → Prop
  | plain {cs : List Char} : PlainText cs → ScalarText cs (.plain (String.ofList cs))
  | single {cs s : List Char} : SingleText cs s →
      ScalarText ('\'' :: (cs ++ ['\''])) (.quoted (String.ofList s))
  | double {cs s : List Char} : DoubleText cs s →
      ScalarText ('"' :: (cs ++ ['"'])) (.quoted (String.ofList s))

/-- What may follow a scalar. A comment follows behind a blank only. -/
inductive Follows (inFlow : Bool) : List Char → Prop
  | ends : Follows inFlow []
  | breaks {r : List Char} : Follows inFlow ('\n' :: r)
  | colon {r : List Char} : blankFirst r → Follows inFlow (':' :: r)
  | punctuation {c : Char} {r : List Char} : inFlow → isFlowPunctuation c → Follows inFlow (c :: r)
  | blank {c : Char} {r : List Char} : isBlank c → Follows inFlow r → Follows inFlow (c :: r)
  | comment {c : Char} {r : List Char} : isBlank c → Follows inFlow (c :: '#' :: r)

/-- A key and the blanks behind it. -/
inductive KeyText : List Char → Scalar → Prop
  | intro {cs blanks : List Char} {k : Scalar} : ScalarText cs k → (∀ c ∈ blanks, isBlank c) →
      (cs ++ blanks).length ≤ maxKeyLength → KeyText (cs ++ blanks) k

theorem isPlainChar_of_isBlank {c : Char} (h : isBlank c) : isPlainChar c := by
  simp only [isBlank, Bool.or_eq_true, decide_eq_true_eq] at h
  rcases h with rfl | rfl <;> decide

theorem isBlank_eq_false_of_mem_punctuation {c : Char} (h : isFlowPunctuation c) :
    isBlank c = false ∧ c ≠ '\n' ∧ c ≠ ':' ∧ c ≠ '#' := by
  have hall : ",[]\x7b\x7d".toList.all fun d => !isBlank d && d ≠ '\n' && d ≠ ':' && d ≠ '#' := by
    decide
  have hc := List.all_eq_true.1 hall c (of_decide_eq_true h)
  simpa only [Bool.and_eq_true, Bool.not_eq_true', decide_eq_true_eq, and_assoc] using hc

section Plain

variable {inFlow : Bool} {cs rest : List Char}

theorem Follows.head?_ne (h : Follows inFlow rest) {d : Char}
    (hd : d ∉ " \t\n:,[]\x7b\x7d".toList) : rest.head? ≠ some d := by
  have hblank : isBlank d = false := by
    refine Bool.eq_false_iff.2 fun hyes => ?_
    simp only [isBlank, Bool.or_eq_true, decide_eq_true_eq] at hyes
    rcases hyes with rfl | rfl <;> exact hd (by decide)
  intro heq
  cases h with
  | ends => cases heq
  | breaks =>
    cases heq
    exact hd (by decide)
  | colon =>
    cases heq
    exact hd (by decide)
  | punctuation _ hc =>
    cases heq
    exact hd (List.mem_append_right " \t\n:".toList (of_decide_eq_true hc))
  | blank hc =>
    cases heq
    exact Bool.false_ne_true (hblank.symm.trans hc)
  | comment hc =>
    cases heq
    exact Bool.false_ne_true (hblank.symm.trans hc)

theorem scanPlain_cons {c : Char} (hc : isPlainChar c) (hrest : rest.head? ≠ some '#') :
    scanPlain inFlow (c :: rest) =
      (scanPlain inFlow rest).map fun (cs, r) => (c :: cs, r) := by
  simp only [isPlainChar, Bool.and_eq_true, Bool.not_eq_true', decide_eq_true_eq] at hc
  obtain ⟨⟨⟨hbreak, hcolon⟩, -⟩, hpunctuation⟩ := hc
  simp [scanPlain, hbreak, hcolon, hpunctuation, hrest]

/-- Behind the characters of a plain scalar nothing but blanks is taken up. -/
theorem scanPlain_follows (h : Follows inFlow rest) :
    ∃ blanks, (∀ c ∈ blanks, isBlank c) ∧
      scanPlain inFlow rest = some (blanks, rest.dropWhile isBlank) := by
  induction h with
  | ends => exact ⟨[], nofun, rfl⟩
  | breaks => exact ⟨[], nofun, rfl⟩
  | colon hr => exact ⟨[], nofun, by simp [scanPlain, hr, isBlank]⟩
  | punctuation hflow hc =>
    obtain ⟨hblank, hbreak, hcolon, -⟩ := isBlank_eq_false_of_mem_punctuation hc
    exact ⟨[], nofun, by simp [scanPlain, hflow, hc, hblank, hbreak, hcolon]⟩
  | @blank c r hc hr ih =>
    obtain ⟨blanks, hblanks, hscan⟩ := ih
    refine ⟨c :: blanks, List.forall_mem_cons.2 ⟨hc, hblanks⟩, ?_⟩
    rw [scanPlain_cons (isPlainChar_of_isBlank hc) (hr.head?_ne (by decide)), hscan,
      List.dropWhile_cons_of_pos hc]
    rfl
  | @comment c r hc =>
    refine ⟨[], nofun, ?_⟩
    have hplain := isPlainChar_of_isBlank hc
    simp only [isPlainChar, Bool.and_eq_true, Bool.not_eq_true', decide_eq_true_eq] at hplain
    obtain ⟨⟨⟨hbreak, hcolon⟩, -⟩, hpunctuation⟩ := hplain
    have hdrop : (c :: '#' :: r).dropWhile isBlank = '#' :: r := by
      rw [List.dropWhile_cons_of_pos hc]
      rfl
    simp [scanPlain, hbreak, hcolon, hpunctuation, hc, hdrop]

theorem scanPlain_append (hcs : ∀ c ∈ cs, isPlainChar c) (hrest : rest.head? ≠ some '#') :
    scanPlain inFlow (cs ++ rest) = (scanPlain inFlow rest).map fun (s, r) => (cs ++ s, r) := by
  induction cs with
  | nil => simp
  | cons c cs ih =>
    obtain ⟨hc, hcs⟩ := List.forall_mem_cons.1 hcs
    have hnext : (cs ++ rest).head? ≠ some '#' := by
      cases cs with
      | nil => exact hrest
      | cons d cs =>
        rintro ⟨⟩
        exact absurd (hcs '#' List.mem_cons_self) (by decide)
    rw [List.cons_append, scanPlain_cons hc hnext, ih hcs, Option.map_map]
    rfl

theorem trimEnd_append {blanks : List Char} (hblanks : ∀ c ∈ blanks, isBlank c)
    (hcs : ∃ c r, cs = r ++ [c] ∧ isBlank c = false) : trimEnd (cs ++ blanks) = cs := by
  obtain ⟨c, r, rfl, hc⟩ := hcs
  have hreverse : ∀ d ∈ blanks.reverse, isBlank d := fun d hd => hblanks d (List.mem_reverse.1 hd)
  rw [trimEnd, List.reverse_append, List.dropWhile_append_of_pos hreverse]
  simp [hc]

theorem blankFirst_append (h : blankFirst cs = false) (rest : List Char) :
    blankFirst (cs ++ rest) = false := by
  cases cs with
  | nil => cases h
  | cons c cs => exact h

theorem PlainText.plainStarts (h : PlainText cs) (rest : List Char) :
    plainStarts inFlow (cs ++ rest) := by
  obtain ⟨c, r, rfl, hstart | ⟨rfl, hr⟩⟩ := h.starts
  · simp only [isStartChar, Bool.and_eq_true, Bool.not_eq_true', decide_eq_true_eq] at hstart
    obtain ⟨⟨⟨hindicator, hblank⟩, hbreak⟩, -⟩ := hstart
    have hother : ∀ d, isIndicator d → c ≠ d := by
      rintro d hd rfl
      exact Bool.false_ne_true (hindicator.symm.trans hd)
    simp [Yaml.plainStarts, hindicator, hblank, hbreak, hother '-' (by decide),
      hother '?' (by decide), hother ':' (by decide)]
  · simp [Yaml.plainStarts, blankFirst_append hr rest]

end Plain

section Quoted

variable {cs s rest read : List Char} {fuel : Nat}

theorem SingleText.scanSingle (h : SingleText cs s) (hrest : rest.head? ≠ some '\'')
    (hfuel : cs.length < fuel) :
    scanSingle fuel read (cs ++ '\'' :: rest) = some (String.ofList (read.reverse ++ s), rest) := by
  induction h generalizing read fuel with
  | nil =>
    obtain ⟨fuel, rfl⟩ := Nat.exists_eq_add_one_of_ne_zero (Nat.ne_zero_of_lt hfuel)
    cases rest with
    | nil => simp [Yaml.scanSingle]
    | cons d rest =>
      have hd : d ≠ '\'' := fun heq => hrest (congrArg some heq)
      simp [Yaml.scanSingle, hd]
  | char hquote hbreak _ ih =>
    obtain ⟨fuel, rfl⟩ := Nat.exists_eq_add_one_of_ne_zero (Nat.ne_zero_of_lt hfuel)
    rw [List.cons_append, Yaml.scanSingle, if_neg hbreak, ih (Nat.lt_of_succ_lt_succ hfuel),
      List.reverse_cons, List.append_assoc]
    · rfl
    · exact fun _ hc => absurd hc hquote
    · exact hquote
  | quote _ ih =>
    obtain ⟨fuel, rfl⟩ := Nat.exists_eq_add_one_of_ne_zero (Nat.ne_zero_of_lt hfuel)
    have hless := Nat.lt_of_succ_lt (Nat.lt_of_succ_lt_succ hfuel)
    rw [List.cons_append, List.cons_append, Yaml.scanSingle, ih hless, List.reverse_cons,
      List.append_assoc]
    rfl

theorem DoubleText.scanDouble (h : DoubleText cs s) (hfuel : cs.length < fuel) :
    scanDouble fuel read (cs ++ '"' :: rest) = some (String.ofList (read.reverse ++ s), rest) := by
  induction h generalizing read fuel with
  | nil =>
    obtain ⟨fuel, rfl⟩ := Nat.exists_eq_add_one_of_ne_zero (Nat.ne_zero_of_lt hfuel)
    simp [Yaml.scanDouble]
  | char hquote hslash hbreak _ ih =>
    obtain ⟨fuel, rfl⟩ := Nat.exists_eq_add_one_of_ne_zero (Nat.ne_zero_of_lt hfuel)
    rw [List.cons_append, Yaml.scanDouble, if_neg hbreak, if_neg hslash,
      ih (Nat.lt_of_succ_lt_succ hfuel), List.reverse_cons, List.append_assoc]
    · rfl
    · exact hquote
    · exact fun _ hc => absurd hc hslash
    · exact fun _ _ hc => absurd hc hslash
  | @escape e c cs s he _ ih =>
    obtain ⟨fuel, rfl⟩ := Nat.exists_eq_add_one_of_ne_zero (Nat.ne_zero_of_lt hfuel)
    have hless := Nat.lt_of_succ_lt (Nat.lt_of_succ_lt_succ hfuel)
    have hwidth : escapeWidth? e = none := by
      unfold escape? at he
      split at he <;> first | rfl | cases he
    have hbreak : e ≠ '\n' := by
      rintro rfl
      cases he
    rw [List.cons_append, List.cons_append, Yaml.scanDouble, hwidth]
    · simp [he, ih hless]
    · exact hbreak
  | @code e c digits cs s he hdigits _ ih =>
    obtain ⟨fuel, rfl⟩ := Nat.exists_eq_add_one_of_ne_zero (Nat.ne_zero_of_lt hfuel)
    have hless : cs.length < fuel := by
      simp only [List.length_cons, List.length_append] at hfuel
      omega
    have hbreak : e ≠ '\n' := by
      rintro rfl
      cases he
    rw [List.cons_append, List.cons_append, Yaml.scanDouble, he]
    · simp [hdigits, ih hless]
    · exact hbreak

/-- The digits of a code point are no line breaks. -/
theorem newline_not_mem_of_codePoint? {digits : List Char} {c : Char}
    (h : codePoint? digits = some c) : '\n' ∉ digits := by
  have hcontinue : ∀ (cs : List Char) (n : Nat), '\n' ∈ cs → Numeral.continue? 16 n cs = none := by
    intro cs
    induction cs with
    | nil => exact fun _ hmem => nomatch hmem
    | cons d cs ih =>
      intro n hmem
      rcases List.mem_cons.1 hmem with rfl | hmem
      · rfl
      · rw [Numeral.continue?]
        cases Numeral.digit? 16 d with
        | none => rfl
        | some k => exact ih _ hmem
  intro hmem
  have hnone : Numeral.natural? 16 digits = none := by
    unfold Numeral.natural?
    split
    · rfl
    · exact hcontinue digits 0 hmem
  rw [codePoint?, hnone] at h
  cases h

theorem SingleText.newline_not_mem (h : SingleText cs s) : '\n' ∉ cs := by
  induction h with
  | nil => exact List.not_mem_nil
  | char _ hbreak _ ih => simp [Ne.symm hbreak, ih]
  | quote _ ih => simp [ih]

theorem DoubleText.newline_not_mem (h : DoubleText cs s) : '\n' ∉ cs := by
  induction h with
  | nil => exact List.not_mem_nil
  | char _ _ hbreak _ ih => simp [Ne.symm hbreak, ih]
  | @escape e _ _ _ he _ ih =>
    have hbreak : '\n' ≠ e := by
      rintro rfl
      cases he
    simp [hbreak, ih]
  | @code e _ _ _ _ he hdigits _ ih =>
    have hbreak : '\n' ≠ e := by
      rintro rfl
      cases he
    simp [hbreak, ih, newline_not_mem_of_codePoint? hdigits]

end Quoted

section Scalar

variable {inFlow : Bool} {cs rest : List Char} {s : Scalar}

theorem PlainText.append_ne (h : PlainText cs) {d : Char} (hd : isStartChar d = false)
    (hdash : d ≠ '-') (r : List Char) : cs ++ rest ≠ d :: r := by
  obtain ⟨c, t, rfl, hstart | ⟨rfl, -⟩⟩ := h.starts
  · rintro ⟨⟩
    exact Bool.false_ne_true (hd.symm.trans hstart)
  · rintro ⟨⟩
    exact hdash rfl

/-- A scalar's text starts with a dash, with a quote or with a character that has no meaning. -/
theorem ScalarText.exists_cons (h : ScalarText cs s) :
    ∃ c r, cs = c :: r ∧ (isStartChar c ∨ c ∈ "-'\"".toList) := by
  cases h with
  | plain hplain =>
    obtain ⟨c, r, rfl, hstart | ⟨rfl, -⟩⟩ := hplain.starts
    · exact ⟨c, r, rfl, .inl hstart⟩
    · exact ⟨_, r, rfl, .inr (by decide)⟩
  | single => exact ⟨_, _, rfl, .inr (by decide)⟩
  | double => exact ⟨_, _, rfl, .inr (by decide)⟩

theorem ScalarText.append_ne (h : ScalarText cs s) {d : Char} (hd : isStartChar d = false)
    (hother : d ∉ "-'\"".toList) (r : List Char) : cs ++ rest ≠ d :: r := by
  obtain ⟨c, t, rfl, hstart | hmem⟩ := h.exists_cons
  · rintro ⟨⟩
    exact Bool.false_ne_true (hd.symm.trans hstart)
  · rintro ⟨⟩
    exact hother hmem

theorem PlainText.scanScalar (h : PlainText cs) (hrest : Follows inFlow rest)
    (hflow : inFlow → plainGoesOn (rest.dropWhile isBlank) = false) :
    scanScalar inFlow (cs ++ rest) = some (.plain (String.ofList cs), rest.dropWhile isBlank) := by
  obtain ⟨blanks, hblanks, hscan⟩ := scanPlain_follows hrest
  have hall : scanPlain inFlow (cs ++ rest) = some (cs ++ blanks, rest.dropWhile isBlank) := by
    rw [scanPlain_append h.chars (hrest.head?_ne (by decide)), hscan]
    rfl
  have hgoes : (inFlow && plainGoesOn (rest.dropWhile isBlank)) = false := by
    simpa using hflow
  rw [Yaml.scanScalar, if_pos (h.plainStarts rest), hall, Option.bind_some]
  · simp only [hgoes, Bool.false_eq_true, if_false, trimEnd_append hblanks h.ends]
  · exact h.append_ne (by decide) (by decide)
  · exact h.append_ne (by decide) (by decide)

theorem SingleText.scanScalar {t : List Char} (h : SingleText cs t)
    (hrest : rest.head? ≠ some '\'') :
    Yaml.scanScalar inFlow ('\'' :: (cs ++ ['\'']) ++ rest) =
      some (.quoted (String.ofList t), rest) := by
  have htext : '\'' :: (cs ++ ['\'']) ++ rest = '\'' :: (cs ++ '\'' :: rest) := by simp
  have hscan : Yaml.scanSingle ((cs ++ '\'' :: rest).length + 1) [] (cs ++ '\'' :: rest) =
      some (String.ofList t, rest) := by
    refine h.scanSingle hrest ?_
    rw [List.length_append]
    omega
  rw [htext, Yaml.scanScalar, hscan]
  rfl

theorem DoubleText.scanScalar {t : List Char} (h : DoubleText cs t) :
    Yaml.scanScalar inFlow ('"' :: (cs ++ ['"']) ++ rest) =
      some (.quoted (String.ofList t), rest) := by
  have htext : '"' :: (cs ++ ['"']) ++ rest = '"' :: (cs ++ '"' :: rest) := by simp
  have hscan : Yaml.scanDouble ((cs ++ '"' :: rest).length + 1) [] (cs ++ '"' :: rest) =
      some (String.ofList t, rest) := by
    refine h.scanDouble ?_
    rw [List.length_append]
    omega
  rw [htext, Yaml.scanScalar, hscan]
  rfl

/-- A scalar reads back from its text. Blanks behind a quoted one are not passed over. -/
theorem ScalarText.scanScalar (h : ScalarText cs s) (hrest : Follows inFlow rest)
    (hflow : inFlow → plainGoesOn (rest.dropWhile isBlank) = false) :
    ∃ r, Yaml.scanScalar inFlow (cs ++ rest) = some (s, r) ∧
      (r = rest.dropWhile isBlank ∨ r = rest ∧ ∃ t, s = .quoted t) := by
  cases h with
  | plain hplain => exact ⟨_, hplain.scanScalar hrest hflow, .inl rfl⟩
  | single hs => exact ⟨_, hs.scanScalar (hrest.head?_ne (by decide)), .inr ⟨rfl, _, rfl⟩⟩
  | double hs => exact ⟨_, hs.scanScalar, .inr ⟨rfl, _, rfl⟩⟩

theorem ScalarText.scanScalar_quoted {t : String} (h : ScalarText cs (.quoted t))
    (hrest : rest.head? ≠ some '\'') :
    Yaml.scanScalar inFlow (cs ++ rest) = some (.quoted t, rest) := by
  cases h with
  | single hs => exact hs.scanScalar hrest
  | double hs => exact hs.scanScalar

/-- A scalar's text stands on one line. -/
theorem ScalarText.newline_not_mem (h : ScalarText cs s) : '\n' ∉ cs := by
  cases h with
  | plain hplain => exact fun hmem => absurd (hplain.chars _ hmem) (by decide)
  | single hs => simp [hs.newline_not_mem]
  | double hs => simp [hs.newline_not_mem]

end Scalar

section Key

variable {inFlow : Bool} {cs key r : List Char} {k : Scalar}

theorem follows_blanks {blanks rest : List Char} (hblanks : ∀ c ∈ blanks, isBlank c)
    (hrest : Follows inFlow rest) : Follows inFlow (blanks ++ rest) := by
  induction blanks with
  | nil => exact hrest
  | cons c blanks ih =>
    obtain ⟨hc, hblanks⟩ := List.forall_mem_cons.1 hblanks
    exact .blank hc (ih hblanks)

theorem ScalarText.scanScalar_key (h : ScalarText cs k) {blanks : List Char}
    (hblanks : ∀ c ∈ blanks, isBlank c) (hr : blankFirst r ∨ ∃ t, k = .quoted t)
    (inFlow : Bool) :
    ∃ rest, Yaml.scanScalar inFlow (cs ++ (blanks ++ ':' :: r)) = some (k, rest) ∧
      rest.dropWhile isBlank = ':' :: r := by
  have hcolon : (blanks ++ ':' :: r).dropWhile isBlank = ':' :: r := by
    rw [List.dropWhile_append_of_pos hblanks]
    rfl
  rcases hr with hr | ⟨t, rfl⟩
  · have hgoes : plainGoesOn ((blanks ++ ':' :: r).dropWhile isBlank) = false := by
      rw [hcolon]
      simp [plainGoesOn, isBlank, hr]
    obtain ⟨rest, hscan, hrest⟩ := h.scanScalar (follows_blanks hblanks (.colon hr)) fun _ => hgoes
    refine ⟨rest, hscan, ?_⟩
    rcases hrest with rfl | ⟨rfl, -⟩
    · rw [hcolon]
      rfl
    · exact hcolon
  · have hhead : (blanks ++ ':' :: r).head? ≠ some '\'' := by
      cases blanks with
      | nil => exact fun heq => absurd (Option.some.inj heq) (by decide)
      | cons c blanks =>
        rintro ⟨⟩
        exact absurd (hblanks _ List.mem_cons_self) (by decide)
    exact ⟨_, h.scanScalar_quoted hhead, hcolon⟩

/-- A key reads back in front of its colon, which a plain key needs a blank behind. -/
theorem KeyText.scanKey (h : KeyText key k) (hr : blankFirst r ∨ ∃ t, k = .quoted t) :
    scanKey inFlow (key ++ ':' :: r) = some (k, ':' :: r) := by
  obtain @⟨cs, blanks, k, hcs, hblanks, hlength⟩ := h
  obtain ⟨rest, hscan, hbehind⟩ := hcs.scanScalar_key hblanks hr inFlow
  have hused : (cs ++ (blanks ++ ':' :: r)).take
      ((cs ++ (blanks ++ ':' :: r)).length - (':' :: r).length) = cs ++ blanks := by
    rw [← List.append_assoc, List.length_append, Nat.add_sub_cancel]
    exact List.take_left
  have hnewline : '\n' ∉ cs ++ blanks := by
    rw [List.mem_append, not_or]
    exact ⟨hcs.newline_not_mem, fun hmem => absurd (hblanks _ hmem) (by decide)⟩
  rw [List.append_assoc, Yaml.scanKey, hscan, Option.bind_some]
  simp only [hbehind, hused]
  rw [if_neg]
  simp only [List.head?_cons, decide_true, Bool.true_and, Bool.or_eq_true, decide_eq_true_eq]
  exact not_or.2 ⟨hnewline, Nat.not_lt.2 hlength⟩

/-- The text of a key starts with neither a question mark nor a brace. -/
theorem KeyText.append_ne (h : KeyText key k) {d : Char} (hd : isStartChar d = false)
    (hother : d ∉ "-'\"".toList) (rest r : List Char) : key ++ rest ≠ d :: r := by
  obtain ⟨hcs, -, -⟩ := h
  rw [List.append_assoc]
  exact hcs.append_ne hd hother r

end Key
end TaintFlow.Yaml
