import TaintFlow.Proofs.AccessPath.RoundTrip

/-!
# The grammar of access paths

Which texts are access paths, and what they denote, as rules that know nothing of the reader. An
access path may have more texts than the one that it is written as: a parameter's number may have a
plus sign and leading zeros, and any element may be quoted. The reader accepts the texts that the
rules give and no others, and reads from each what the rules say that it denotes.
-/
namespace TaintFlow

/-- One or more decimal digits and their value. -/
structure DecimalText (cs : List Char) (n : Nat) : Prop where
  ne_nil : cs ≠ []
  isDigit : ∀ c ∈ cs, c.isDigit
  value : Nat.ofDigitChars 10 cs 0 = n

/-- The number of a parameter, which may have a plus sign. -/
inductive NumberText : List Char → UInt32 → Prop
  | plain {cs : List Char} {i : UInt32} : DecimalText cs i.toNat → NumberText cs i
  | signed {cs : List Char} {i : UInt32} : DecimalText cs i.toNat → NumberText ('+' :: cs) i

inductive RootText : List Char → Root → Prop
  | result : RootText "Return".toList .result
  | leaf : RootText "Leaf".toList .leaf
  | anchor : RootText "Anchor".toList .anchor
  | producer : RootText "Producer".toList .producer
  | argument {cs : List Char} {i : UInt32} : NumberText cs i →
      RootText ("Argument(".toList ++ (cs ++ [')'])) (.argument i)

/-- What may stand between quotes, and the name that it denotes. -/
inductive QuotedText : List Char → List Char → Prop
  | nil : QuotedText [] []
  | plain {c : Char} {cs name : List Char} : c ≠ '"' → c ≠ '\\' → QuotedText cs name →
      QuotedText (c :: cs) (c :: name)
  | escaped {c : Char} {cs name : List Char} : c = '"' ∨ c = '\\' → QuotedText cs name →
      QuotedText ('\\' :: c :: cs) (c :: name)

inductive ElementText : List Char → List Char → Prop
  | unquoted {name : List Char} : name ≠ [] → (∀ c ∈ name, c ≠ '.' ∧ c ≠ '"' ∧ c ≠ '\\') →
      ElementText name name
  | quoted {cs name : List Char} : QuotedText cs name → ElementText ('"' :: (cs ++ ['"'])) name

inductive PathText : List Char → List PathElement → Prop
  | nil : PathText [] []
  | cons {cs rest : List Char} {e : PathElement} {es : List PathElement} :
      ElementText cs e.text.toList → PathText rest es → PathText ('.' :: (cs ++ rest)) (e :: es)

/-- A root's text and then the elements, each behind a dot. -/
inductive PortText : List Char → AccessPath → Prop
  | intro {root path : List Char} {p : AccessPath} :
      RootText root p.root → PathText path p.path → PortText (root ++ path) p

namespace Numeral

theorem isDigit_of_digit? {c : Char} {d : Nat} (h : digit? 10 c = some d) : c.isDigit := by
  obtain ⟨hvalue, hsmall⟩ := Option.filter_eq_some_iff.1 h
  have hlt : d < 10 := of_decide_eq_true hsmall
  apply Classical.byContradiction
  intro hno
  -- A letter counts from ten on.
  rw [if_neg hno] at hvalue
  split at hvalue
  · cases hvalue
    omega
  · split at hvalue
    · cases hvalue
      omega
    · cases hvalue

theorem isDigit_of_continue? {cs : List Char} {n m : Nat} (h : continue? 10 n cs = some m) :
    ∀ c ∈ cs, c.isDigit := by
  induction cs generalizing n with
  | nil => exact fun _ hc => nomatch hc
  | cons c cs ih =>
      obtain ⟨d, hd, hrest⟩ := Option.bind_eq_some_iff.1 h
      exact List.forall_mem_cons.2 ⟨isDigit_of_digit? hd, ih hrest⟩

theorem natural?_eq_some_iff {cs : List Char} {n : Nat} :
    natural? 10 cs = some n ↔ DecimalText cs n := by
  constructor
  · intro h
    unfold natural? at h
    split at h
    · cases h
    · rename_i hsome
      have hdigits : ∀ c ∈ cs, c.isDigit := isDigit_of_continue? h
      rw [continue?_of_isDigit hdigits, Option.some.injEq] at h
      exact ⟨fun hnil => hsome (List.isEmpty_iff.2 hnil), hdigits, h⟩
  · intro h
    obtain ⟨hne, hdigits, hvalue⟩ := h
    rw [natural?, if_neg fun hempty => hne (List.isEmpty_iff.1 hempty),
      continue?_of_isDigit hdigits, hvalue]

end Numeral

theorem argumentNumber?_eq_some_iff {cs : List Char} {i : UInt32} :
    argumentNumber? cs = some i ↔ NumberText cs i := by
  have hvalue {digits : List Char} :
      ((Numeral.natural? 10 digits).bind fun n =>
        if n < UInt32.size then some (UInt32.ofNat n) else none) = some i ↔
      DecimalText digits i.toNat := by
    rw [← Numeral.natural?_eq_some_iff, Option.bind_eq_some_iff]
    constructor
    · intro hfound
      obtain ⟨n, hn, hi⟩ := hfound
      split at hi
      · rename_i hsmall
        cases hi
        rw [UInt32.toNat_ofNat_of_lt' hsmall]
        exact hn
      · cases hi
    · intro hn
      exact ⟨i.toNat, hn, by rw [if_pos i.toNat_lt_size, UInt32.ofNat_toNat]⟩
  constructor
  · intro h
    unfold argumentNumber? at h
    split at h
    · exact .signed (hvalue.1 h)
    · exact .plain (hvalue.1 h)
  · intro h
    cases h with
    | signed hdigits => exact hvalue.2 hdigits
    | plain hdigits =>
        unfold argumentNumber?
        split
        · -- A plus sign is no digit.
          exact absurd (hdigits.isDigit '+' List.mem_cons_self) (by decide)
        · exact hvalue.2 hdigits

theorem argumentChars?_eq_some_iff {cs digits : List Char} :
    argumentChars? cs = some digits ↔ cs = "Argument(".toList ++ (digits ++ [')']) := by
  constructor
  · intro h
    simp only [argumentChars?] at h
    split at h
    · rename_i hprefix
      obtain ⟨r, rfl⟩ := List.isPrefixOf_iff_prefix.1 hprefix
      rw [List.drop_left] at h
      split at h
      · rename_i r' hr'
        cases h
        rw [← List.reverse_cons, ← hr', List.reverse_reverse]
      · cases h
    · cases h
  · intro h
    subst h
    simp [argumentChars?]

namespace Root

theorem ofChars?_eq_some_iff {cs : List Char} {r : Root} :
    ofChars? cs = some r ↔ RootText cs r := by
  constructor
  · intro h
    unfold ofChars? at h
    split at h
    · rename_i heq
      cases h
      exact heq ▸ .result
    split at h
    · rename_i heq
      cases h
      exact heq ▸ .leaf
    split at h
    · rename_i heq
      cases h
      exact heq ▸ .anchor
    split at h
    · rename_i heq
      cases h
      exact heq ▸ .producer
    obtain ⟨i, hi, rfl⟩ := Option.map_eq_some_iff.1 h
    obtain ⟨digits, hdigits, hi⟩ := Option.bind_eq_some_iff.1 hi
    rw [argumentChars?_eq_some_iff.1 hdigits]
    exact .argument (argumentNumber?_eq_some_iff.1 hi)
  · intro h
    cases h with
    | result => rfl
    | leaf => rfl
    | anchor => rfl
    | producer => rfl
    | @argument digits i hdigits =>
        have hlast : ("Argument(".toList ++ (digits ++ [')'])).getLast? = some ')' := by
          rw [← List.append_assoc, List.getLast?_concat]
        have hword {word : String} (hword : word.toList.getLast? ≠ some ')') :
            "Argument(".toList ++ (digits ++ [')']) ≠ word.toList :=
          fun heq => hword (heq ▸ hlast)
        rw [ofChars?, if_neg (hword (by decide)), if_neg (hword (by decide)),
          if_neg (hword (by decide)), if_neg (hword (by decide)),
          argumentChars?_eq_some_iff.2 rfl, Option.bind_some,
          argumentNumber?_eq_some_iff.2 hdigits, Option.map_some]

theorem ne_dot_of_rootText {cs : List Char} {r : Root} (h : RootText cs r) :
    ∀ c ∈ cs, c ≠ '.' := by
  cases h with
  | result => exact List.forall_mem_ne'.2 (by decide)
  | leaf => exact List.forall_mem_ne'.2 (by decide)
  | anchor => exact List.forall_mem_ne'.2 (by decide)
  | producer => exact List.forall_mem_ne'.2 (by decide)
  | @argument number i hnumber =>
      have hno : '.' ∉ number := by
        intro hdot
        cases hnumber with
        | plain hdigits => exact absurd (hdigits.isDigit '.' hdot) (by decide)
        | signed hdigits =>
            rcases List.mem_cons.1 hdot with hsign | hdot
            · exact absurd hsign (by decide)
            · exact absurd (hdigits.isDigit '.' hdot) (by decide)
      refine List.forall_mem_ne'.2 fun hdot => ?_
      rcases List.mem_append.1 hdot with hopening | hdot
      · exact absurd hopening (by decide)
      rcases List.mem_append.1 hdot with hdot | hclosing
      · exact hno hdot
      · exact absurd hclosing (by decide)

theorem ne_nil_of_rootText {cs : List Char} {r : Root} (h : RootText cs r) : cs ≠ [] := by
  cases h with
  | argument hnumber => exact List.cons_ne_nil _ _
  | _ => exact List.cons_ne_nil _ _

end Root

/-- Scanning stops behind the first quote that no backslash precedes. -/
theorem scanQuoted_eq_some_iff {cs name rest : List Char} :
    scanQuoted cs = some (name, rest) ↔
      ∃ quoted, QuotedText quoted name ∧ cs = quoted ++ '"' :: rest := by
  constructor
  · intro h
    fun_induction scanQuoted cs generalizing name rest with
    | case1 => cases h
    | case2 r =>
        cases h
        exact ⟨[], .nil, rfl⟩
    | case3 c r hescape ih =>
        obtain ⟨⟨name', rest'⟩, hrest, heq⟩ := Option.map_eq_some_iff.1 h
        cases heq
        obtain ⟨quoted, hquoted, rfl⟩ := ih hrest
        exact ⟨'\\' :: c :: quoted, .escaped (by simpa using hescape) hquoted, rfl⟩
    | case4 => cases h
    | case5 => cases h
    | case6 c r hquote hslash hlast ih =>
        obtain ⟨⟨name', rest'⟩, hrest, heq⟩ := Option.map_eq_some_iff.1 h
        cases heq
        obtain ⟨quoted, hquoted, rfl⟩ := ih hrest
        have hplain : c ≠ '\\' := by
          intro heq
          cases quoted with
          | nil => exact hslash _ _ heq rfl
          | cons d quoted => exact hslash _ _ heq rfl
        exact ⟨c :: quoted, .plain hquote hplain hquoted, rfl⟩
  · intro h
    obtain ⟨quoted, hquoted, rfl⟩ := h
    induction hquoted with
    | nil => rfl
    | plain hquote hslash hrest ih =>
        simp [scanQuoted, hslash, ih]
    | escaped hescape hrest ih =>
        rcases hescape with rfl | rfl
        · simp [scanQuoted, ih]
        · simp [scanQuoted, ih]

theorem needsQuotes_eq_false_iff {name : List Char} :
    needsQuotes name = false ↔
      name ≠ [] ∧ ∀ c ∈ name, c ≠ '.' ∧ c ≠ '"' ∧ c ≠ '\\' := by
  simp [needsQuotes, isPathSpecial, and_assoc]

/-- One element and what is left, which the next element starts or nothing does. -/
theorem scanElement_eq_some_iff {cs name rest : List Char} :
    scanElement cs = some (name, rest) ↔
      ∃ element, ElementText element name ∧ EndsElement rest ∧ cs = element ++ rest := by
  constructor
  · intro h
    unfold scanElement at h
    split at h
    · rename_i r
      split at h
      · rename_i name' hscan
        cases h
        obtain ⟨quoted, hquoted, rfl⟩ := scanQuoted_eq_some_iff.1 hscan
        exact ⟨'"' :: (quoted ++ ['"']), .quoted hquoted, .inl rfl, by simp⟩
      · rename_i name' r' hscan
        cases h
        obtain ⟨quoted, hquoted, rfl⟩ := scanQuoted_eq_some_iff.1 hscan
        exact ⟨'"' :: (quoted ++ ['"']), .quoted hquoted, .inr ⟨r', rfl⟩, by simp⟩
      · cases h
    · simp only at h
      split at h
      · cases h
      · rename_i hplain
        cases h
        obtain ⟨hne, hplain⟩ := needsQuotes_eq_false_iff.1 (Bool.eq_false_iff.2 hplain)
        refine ⟨_, .unquoted hne hplain, ?_, (List.takeWhile_append_dropWhile ..).symm⟩
        cases hrest : cs.dropWhile (· ≠ '.') with
        | nil => exact .inl rfl
        | cons c r =>
            have hstop := List.head?_dropWhile_not (fun c => decide (c ≠ '.')) cs
            rw [hrest] at hstop
            have hdot : c = '.' := by simpa using hstop
            exact .inr ⟨r, by rw [hdot]⟩
  · intro h
    obtain ⟨element, helement, hrest, rfl⟩ := h
    cases helement with
    | unquoted hne hplain =>
        exact scanElement_unquoted (needsQuotes_eq_false_iff.2 ⟨hne, hplain⟩) hrest
    | @quoted quoted name hquoted =>
        have hscan : scanQuoted (quoted ++ '"' :: rest) = some (name, rest) :=
          scanQuoted_eq_some_iff.2 ⟨quoted, hquoted, rfl⟩
        have htext : '"' :: (quoted ++ ['"']) ++ rest = '"' :: (quoted ++ '"' :: rest) := by simp
        rw [htext, scanElement, hscan]
        rcases hrest with rfl | ⟨r, rfl⟩ <;> rfl

theorem endsElement_of_pathText {cs : List Char} {es : List PathElement} (h : PathText cs es) :
    EndsElement cs := by
  cases h with
  | nil => exact .inl rfl
  | cons helement hrest => exact .inr ⟨_, rfl⟩

theorem scanElements_malformed {r : List Char} (h : scanElement r = none) :
    scanElements ('.' :: r) = ([], false) := by
  rw [scanElements, if_pos rfl]
  split
  · rfl
  · rename_i hsome
    cases h.symm.trans hsome

theorem scanElements_eq_iff {cs : List Char} {es : List PathElement} :
    scanElements cs = (es, true) ↔ PathText cs es := by
  constructor
  · intro h
    fun_induction scanElements cs generalizing es with
    | case1 =>
        cases h
        exact .nil
    | case2 => cases h
    | case3 r name rest hscan hshorter elements complete hrest ih =>
        cases h
        obtain ⟨element, helement, hends, rfl⟩ := scanElement_eq_some_iff.1 hscan
        exact .cons (by rwa [String.toList_ofList]) (ih hrest)
    | case4 => cases h
  · intro h
    induction h with
    | nil => rw [scanElements]
    | @cons element rest e es helement hrest ih =>
        have hfirst : scanElement (element ++ rest) = some (e.text.toList, rest) :=
          scanElement_eq_some_iff.2 ⟨element, helement, endsElement_of_pathText hrest, rfl⟩
        rw [scanElements_dot hfirst, ih, String.ofList_toList]

namespace AccessPath

theorem ofText_eq_ok_iff {s : String} {p : AccessPath} :
    ofText s = .ok p ↔ PortText s.toList p := by
  have hsplit : rootChars s ++ elementsChars s = s.toList := List.takeWhile_append_dropWhile
  constructor
  · intro h
    simp only [ofText] at h
    split at h
    · cases h
    split at h
    · cases h
    rename_i r hroot
    split at h
    · rename_i es hes
      cases h
      rw [← hsplit]
      exact .intro (Root.ofChars?_eq_some_iff.1 hroot) (scanElements_eq_iff.1 hes)
    · cases h
  · intro h
    generalize hs : s.toList = cs at h
    obtain ⟨hroot, hpath⟩ := h
    rename_i root path
    obtain ⟨htake, hdrop⟩ := splitAtDot (Root.ne_dot_of_rootText hroot)
      (endsElement_of_pathText hpath)
    have hrootChars : rootChars s = root := by rw [rootChars, hs, htake]
    have helementsChars : elementsChars s = path := by rw [elementsChars, hs, hdrop]
    have hsome : ¬ root.isEmpty := fun hempty =>
      Root.ne_nil_of_rootText hroot (List.isEmpty_iff.1 hempty)
    simp only [ofText, hrootChars, helementsChars, if_neg hsome,
      Root.ofChars?_eq_some_iff.2 hroot, scanElements_eq_iff.2 hpath]

/-- What a refusal reports: the whole text, or the part before the first dot when that is no
root. -/
theorem text_of_ofText_eq_error {s : String} {e : InvalidPath} (h : ofText s = .error e) :
    e.text = s ∨ e.text = String.ofList (rootChars s) ∧ ∀ r, ¬ RootText (rootChars s) r := by
  simp only [ofText] at h
  split at h
  · cases h
    exact .inl rfl
  split at h
  · rename_i hroot
    cases h
    refine .inr ⟨rfl, fun r hr => ?_⟩
    rw [Root.ofChars?_eq_some_iff.2 hr] at hroot
    cases hroot
  split at h
  · cases h
  · cases h
    exact .inl rfl

/-- The reader accepts the texts of the grammar and reads from each what it denotes. It refuses
every other text, with an error that quotes the text or else its root, when that is malformed. -/
theorem ofText_grammar (s : String) :
    (∀ p, ofText s = .ok p ↔ PortText s.toList p) ∧
    ((∀ p, ¬ PortText s.toList p) →
      ∃ e : InvalidPath, ofText s = .error e ∧
        (e.text = s ∨ e.text = String.ofList (rootChars s) ∧ ∀ r, ¬ RootText (rootChars s) r)) := by
  refine ⟨fun p => ofText_eq_ok_iff, fun hno => ?_⟩
  cases hread : ofText s with
  | ok p => exact absurd (ofText_eq_ok_iff.1 hread) (hno p)
  | error e => exact ⟨e, rfl, text_of_ofText_eq_error hread⟩

/-- A number with a sign and zeros in front, a quoted element with an escape, and a name in which a
quote stands. -/
theorem ofText_grammar_of_quotes :
    ofText "Argument(+007).\"a.\\\"\".c" = .ok ⟨.argument 7, [⟨"a.\""⟩, ⟨"c"⟩]⟩ ∧
    ∃ e, ofText "Return.a\"b" = .error e ∧ e.text = "Return.a\"b" := by
  have hseven : DecimalText "007".toList (UInt32.toNat 7) :=
    ⟨by decide, List.all_eq_true.1 (by decide), by decide⟩
  have hroot : RootText "Argument(+007)".toList (.argument 7) := .argument (.signed hseven)
  have hquoted : QuotedText "a.\\\"".toList "a.\"".toList :=
    .plain (by decide) (by decide) (.plain (by decide) (by decide) (.escaped (.inl rfl) .nil))
  have hunquoted : ElementText "c".toList "c".toList := .unquoted (by decide) (by simp)
  have hpath : PathText ".\"a.\\\"\".c".toList [⟨"a.\""⟩, ⟨"c"⟩] :=
    .cons (.quoted hquoted) (.cons hunquoted .nil)
  have haccepted : PortText "Argument(+007).\"a.\\\"\".c".toList
      ⟨.argument 7, [⟨"a.\""⟩, ⟨"c"⟩]⟩ := by
    rw [show "Argument(+007).\"a.\\\"\".c" = "Argument(+007)" ++ ".\"a.\\\"\".c" from rfl,
      String.toList_append]
    exact .intro hroot hpath
  have hmalformed : scanElements ".a\"b".toList = ([], false) := scanElements_malformed rfl
  have hrefused : ofText "Return.a\"b" = .error ⟨"Return.a\"b"⟩ := by
    rw [ofText, show elementsChars "Return.a\"b" = ".a\"b".toList from rfl, hmalformed]
    rfl
  refine ⟨((ofText_grammar _).1 _).2 haccepted, ?_⟩
  obtain ⟨e, he, -⟩ := (ofText_grammar "Return.a\"b").2 fun p hp => by
    rw [((ofText_grammar _).1 p).2 hp] at hrefused
    cases hrefused
  exact ⟨e, he, by rw [Except.error.inj (he.symm.trans hrefused)]⟩

end AccessPath
end TaintFlow
