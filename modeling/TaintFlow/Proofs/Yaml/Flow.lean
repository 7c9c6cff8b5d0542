import TaintFlow.Proofs.Yaml.Lines

/-!
# Mappings in flow style

Rules for a mapping between braces. Blanks, breaks and comments may stand between its parts, and a
comma behind its last entry. Every text that the rules give is read back as its mapping.
-/
namespace TaintFlow.Yaml

/-- What may stand between the parts of a mapping between braces. -/
inductive GapText : List Char → Prop
  | nil : GapText []
  | blank {c : Char} {cs : List Char} : isBlank c → GapText cs → GapText (c :: cs)
  | breaks {cs : List Char} : GapText cs → GapText ('\n' :: cs)
  | comment {text cs : List Char} : '\n' ∉ text → GapText cs →
      GapText ('#' :: (text ++ '\n' :: cs))

/-- What stands between the colon of an entry and the punctuation behind the entry. -/
inductive FlowValueText : List Char → Scalar → Prop
  | absent {gap : List Char} : GapText gap → FlowValueText gap emptyScalar
  | given {gap cs gap' : List Char} {v : Scalar} : GapText gap → ScalarText cs v → GapText gap' →
      gap'.head? ≠ some '#' → FlowValueText (gap ++ (cs ++ gap')) v

/-- An entry. Its value may stand right behind the colon if the key is quoted. -/
inductive FlowEntryText : List Char → Scalar × Scalar → Prop
  | intro {key value : List Char} {k v : Scalar} : KeyText key k → FlowValueText value v →
      (value ≠ [] ∧ blankFirst value ∨ ∃ t, k = .quoted t) →
      FlowEntryText (key ++ ':' :: value) (k, v)

/-- The entries of a mapping, the closing brace and what follows it. -/
inductive FlowText : List Char → Mapping → List Char → Prop
  | nil {gap rest : List Char} : GapText gap → FlowText (gap ++ '\x7d' :: rest) [] rest
  | last {gap cs rest : List Char} {e : Scalar × Scalar} : GapText gap → FlowEntryText cs e →
      FlowText (gap ++ (cs ++ '\x7d' :: rest)) [e] rest
  | cons {gap cs braces rest : List Char} {e : Scalar × Scalar} {m : Mapping} : GapText gap →
      FlowEntryText cs e → FlowText braces m rest →
      FlowText (gap ++ (cs ++ ',' :: braces)) (e :: m) rest

section Gap

variable {gap rest : List Char} {c : Char} {fuel : Nat}

theorem skipFlow_of_isContentChar (hc : isContentChar c) :
    skipFlow fuel (c :: rest) = c :: rest := by
  simp only [isContentChar, Bool.and_eq_true, Bool.not_eq_true', decide_eq_true_eq] at hc
  cases fuel with
  | zero => rfl
  | succ fuel => simp [skipFlow, hc]

theorem isContentChar_of_mem_punctuation (hc : isFlowPunctuation c) : isContentChar c := by
  have hall : ",[]\x7b\x7d".toList.all isContentChar := by decide
  exact List.all_eq_true.1 hall c (of_decide_eq_true hc)

/-- No part of a gap is taken for a byte order mark. -/
theorem GapText.dropMark (h : GapText gap) (hc : isContentChar c) :
    dropMark (gap ++ c :: rest) = gap ++ c :: rest := by
  refine dropMark_of_ne ?_
  cases h with
  | nil =>
    rintro ⟨⟩
    exact absurd hc (by decide)
  | blank hblank =>
    rintro ⟨⟩
    exact absurd hblank (by decide)
  | breaks => exact fun heq => absurd (Option.some.inj heq) (by decide)
  | comment => exact fun heq => absurd (Option.some.inj heq) (by decide)

theorem GapText.skipFlow_of_length_le (h : GapText gap) (hc : isContentChar c)
    (hfuel : gap.length ≤ fuel) : skipFlow fuel (gap ++ c :: rest) = c :: rest := by
  induction h generalizing fuel with
  | nil => exact skipFlow_of_isContentChar hc
  | blank hblank _ ih =>
    obtain ⟨fuel, rfl⟩ := Nat.exists_eq_add_one_of_ne_zero (Nat.ne_zero_of_lt hfuel)
    rw [List.cons_append, Yaml.skipFlow, if_pos hblank]
    exact ih (Nat.le_of_succ_le_succ hfuel)
  | breaks hcs ih =>
    obtain ⟨fuel, rfl⟩ := Nat.exists_eq_add_one_of_ne_zero (Nat.ne_zero_of_lt hfuel)
    rw [List.cons_append, Yaml.skipFlow, if_neg (by decide), if_pos rfl, hcs.dropMark hc]
    exact ih (Nat.le_of_succ_le_succ hfuel)
  | @comment text cs htext hcs ih =>
    obtain ⟨fuel, rfl⟩ := Nat.exists_eq_add_one_of_ne_zero (Nat.ne_zero_of_lt hfuel)
    have hall : ∀ d ∈ text, decide (d ≠ '\n') = true := fun d hd =>
      decide_eq_true fun heq => htext (heq ▸ hd)
    have hdrop : (text ++ '\n' :: (cs ++ c :: rest)).dropWhile (· ≠ '\n') =
        '\n' :: (cs ++ c :: rest) := by
      rw [List.dropWhile_append_of_pos hall]
      rfl
    simp only [List.length_cons, List.length_append] at hfuel
    obtain ⟨fuel, rfl⟩ := Nat.exists_eq_add_one_of_ne_zero (n := fuel) (by omega)
    rw [List.cons_append, List.append_assoc, List.cons_append, Yaml.skipFlow, if_neg (by decide),
      if_neg (by decide), if_pos rfl, hdrop, Yaml.skipFlow, if_neg (by decide), if_pos rfl,
      hcs.dropMark hc]
    exact ih (by omega)

/-- A gap is passed over, and nothing behind it. -/
theorem GapText.skipFlow (h : GapText gap) (hc : isContentChar c) :
    skipFlow (gap ++ c :: rest).length (gap ++ c :: rest) = c :: rest := by
  refine h.skipFlow_of_length_le hc ?_
  rw [List.length_append]
  exact Nat.le_add_right _ _

/-- Blanks at the start of a gap may be dropped. -/
theorem GapText.dropWhile (h : GapText gap) (hc : isContentChar c) (rest : List Char) :
    ∃ gap', GapText gap' ∧ (gap ++ c :: rest).dropWhile isBlank = gap' ++ c :: rest := by
  induction h with
  | nil =>
    simp only [isContentChar, Bool.and_eq_true, Bool.not_eq_true', decide_eq_true_eq] at hc
    exact ⟨[], .nil, by simp [hc]⟩
  | blank hblank _ ih => simpa [hblank] using ih
  | breaks hcs => exact ⟨_, .breaks hcs, rfl⟩
  | comment htext hcs => exact ⟨_, .comment htext hcs, rfl⟩

/-- A plain scalar does not go on behind a gap in front of punctuation. -/
theorem GapText.plainGoesOn (h : GapText gap) (hc : isFlowPunctuation c) :
    plainGoesOn ((gap ++ c :: rest).dropWhile isBlank) = false := by
  have hgap : ∀ g : List Char, GapText g → Yaml.plainGoesOn (g ++ c :: rest) = false := by
    intro g hg
    induction hg with
    | nil =>
      obtain ⟨hblank, hbreak, hcolon, -⟩ := isBlank_eq_false_of_mem_punctuation hc
      simp [Yaml.plainGoesOn, hblank, hbreak, hcolon, hc]
    | blank hblank _ ih => simpa [Yaml.plainGoesOn, hblank] using ih
    | breaks _ ih => simpa [Yaml.plainGoesOn] using ih
    | comment => rfl
  obtain ⟨gap', hgap', hdrop⟩ := h.dropWhile (isContentChar_of_mem_punctuation hc) rest
  rw [hdrop, hgap gap' hgap']

theorem GapText.follows (h : GapText gap) (hhead : gap.head? ≠ some '#')
    (hc : isFlowPunctuation c) : Follows true (gap ++ c :: rest) := by
  induction h with
  | nil => exact .punctuation rfl hc
  | @blank d cs hblank hcs ih =>
    by_cases hnext : cs.head? = some '#'
    · obtain ⟨r, rfl⟩ := List.head?_eq_some_iff.1 hnext
      exact .comment hblank
    · exact .blank hblank (ih hnext)
  | breaks => exact .breaks
  | comment => exact absurd rfl hhead

end Gap

section Entries

variable {cs value gap rest : List Char} {v : Scalar} {c : Char} {e : Scalar × Scalar}
  {m : Mapping} {fuel : Nat}

/-- A scalar is read in front of punctuation, with some of the gap behind it or all of it. -/
theorem ScalarText.scanScalar_flow (h : ScalarText cs v) (hgap : GapText gap)
    (hhead : gap.head? ≠ some '#') (hc : isFlowPunctuation c) (rest : List Char) :
    ∃ gap', GapText gap' ∧
      Yaml.scanScalar true (cs ++ (gap ++ c :: rest)) = some (v, gap' ++ c :: rest) := by
  have hfollows : Follows true (gap ++ c :: rest) := hgap.follows hhead hc
  obtain ⟨r, hscan, rfl | ⟨rfl, -⟩⟩ := h.scanScalar hfollows fun _ => hgap.plainGoesOn hc
  · obtain ⟨gap', hgap', hdrop⟩ := hgap.dropWhile (isContentChar_of_mem_punctuation hc) rest
    exact ⟨gap', hgap', by rw [hscan, hdrop]⟩
  · exact ⟨gap, hgap, hscan⟩

theorem isFlowPunctuation_of_mem (hc : c ∈ [',', '\x7d']) : isFlowPunctuation c := by
  have hall : [',', '\x7d'].all isFlowPunctuation := by decide
  exact List.all_eq_true.1 hall c hc

/-- A value is read in front of the punctuation behind its entry. -/
theorem FlowValueText.scanFlowValue (h : FlowValueText value v) (hc : c ∈ [',', '\x7d'])
    (rest : List Char) :
    ∃ gap, GapText gap ∧
      scanFlowValue (':' :: (value ++ c :: rest)) = some (v, gap ++ c :: rest) := by
  have hpunctuation := isFlowPunctuation_of_mem hc
  cases h with
  | absent hgap =>
    refine ⟨[], .nil, ?_⟩
    simp only [Yaml.scanFlowValue, hgap.skipFlow (isContentChar_of_mem_punctuation hpunctuation)]
    simp only [List.mem_cons, List.not_mem_nil, or_false] at hc
    rcases hc with rfl | rfl <;> rfl
  | @given gap cs gap' _ hgap hcs hgap' hhead =>
    obtain ⟨behind, hbehind, hscan⟩ := hcs.scanScalar_flow hgap' hhead hpunctuation rest
    refine ⟨behind, hbehind, ?_⟩
    have hskip : skipFlow (gap ++ (cs ++ (gap' ++ c :: rest))).length
        (gap ++ (cs ++ (gap' ++ c :: rest))) = cs ++ (gap' ++ c :: rest) := by
      obtain ⟨d, t, rfl, hd⟩ := hcs.isContentChar
      exact hgap.skipFlow hd
    rw [List.append_assoc, List.append_assoc]
    simp only [Yaml.scanFlowValue, hskip]
    split
    · next heq => exact absurd heq (hcs.append_ne (by decide) (by decide) _)
    · next heq => exact absurd heq (hcs.append_ne (by decide) (by decide) _)
    · exact hscan

theorem scanFlowKey_of_ne (h : ∀ r, cs ≠ '?' :: r) : scanFlowKey cs = scanKey true cs := by
  unfold scanFlowKey
  split
  · exact absurd rfl (h _)
  · rfl

/-- An entry is read in front of the punctuation behind it. -/
theorem FlowEntryText.scan (h : FlowEntryText cs e) (hc : c ∈ [',', '\x7d']) (rest : List Char) :
    ∃ r gap, GapText gap ∧ scanFlowKey (cs ++ c :: rest) = some (e.1, r) ∧
      scanFlowValue r = some (e.2, gap ++ c :: rest) := by
  obtain @⟨key, value, k, v, hkey, hvalue, hcolon⟩ := h
  obtain ⟨gap, hgap, hscan⟩ := hvalue.scanFlowValue hc rest
  refine ⟨_, gap, hgap, ?_, hscan⟩
  rw [List.append_assoc, List.cons_append,
    scanFlowKey_of_ne (hkey.append_ne (by decide) (by decide) _)]
  refine hkey.scanKey (hcolon.imp_left fun ⟨hne, hblank⟩ => ?_)
  obtain ⟨d, t, rfl⟩ := List.exists_cons_of_ne_nil hne
  exact hblank

theorem FlowEntryText.exists_cons (h : FlowEntryText cs e) :
    ∃ d t, cs = d :: t ∧ isContentChar d ∧ d ≠ '\x7d' := by
  obtain @⟨key, value, k, v, hkey, -, -⟩ := h
  obtain ⟨d, t, rfl, hd⟩ := hkey.exists_cons
  refine ⟨d, t ++ ':' :: value, rfl, hd, ?_⟩
  rintro rfl
  exact hkey.append_ne (by decide) (by decide) [] _ rfl

/-- The entry that comes first is read, and those behind its comma. -/
theorem scanFlow_entry (hgap : GapText gap) (h : FlowEntryText cs e) (hc : c ∈ [',', '\x7d']) :
    scanFlow (fuel + 1) (gap ++ (cs ++ c :: rest)) =
      if c = ',' then (scanFlow fuel rest).map fun (entries, r) => (e :: entries, r)
      else some ([e], rest) := by
  have hskip : skipFlow (gap ++ (cs ++ c :: rest)).length (gap ++ (cs ++ c :: rest)) =
      cs ++ c :: rest := by
    obtain ⟨d, t, rfl, hd, -⟩ := h.exists_cons
    exact hgap.skipFlow hd
  obtain ⟨r, behind, hbehind, hkey, hvalue⟩ := h.scan hc rest
  have hpunctuation := isFlowPunctuation_of_mem hc
  have hend : skipFlow (behind ++ c :: rest).length (behind ++ c :: rest) = c :: rest :=
    hbehind.skipFlow (isContentChar_of_mem_punctuation hpunctuation)
  simp only [scanFlow, hskip]
  split
  · next heq =>
    obtain ⟨d, t, rfl, -, hd⟩ := h.exists_cons
    cases heq
    exact absurd rfl hd
  · simp only [hkey, hvalue, Option.bind_some, hend]
    simp only [List.mem_cons, List.not_mem_nil, or_false] at hc
    rcases hc with rfl | rfl <;> rfl

/-- An entry takes up at least its colon. -/
theorem FlowText.length_le (h : FlowText cs m rest) : m.length ≤ cs.length := by
  induction h with
  | nil => exact Nat.zero_le _
  | last =>
    simp only [List.length_append, List.length_cons, List.length_nil]
    omega
  | cons _ _ _ ih =>
    simp only [List.length_append, List.length_cons]
    omega

/-- The entries between the braces are read in their order. -/
theorem FlowText.scanFlow (h : FlowText cs m rest) (hfuel : m.length < fuel) :
    scanFlow fuel cs = some (m, rest) := by
  induction h generalizing fuel with
  | nil hgap =>
    obtain ⟨fuel, rfl⟩ := Nat.exists_eq_add_one_of_ne_zero (Nat.ne_zero_of_lt hfuel)
    have hbrace : isContentChar '\x7d' := by decide
    simp only [Yaml.scanFlow, hgap.skipFlow hbrace]
  | last hgap he =>
    obtain ⟨fuel, rfl⟩ := Nat.exists_eq_add_one_of_ne_zero (Nat.ne_zero_of_lt hfuel)
    rw [scanFlow_entry hgap he (by decide), if_neg (by decide)]
  | cons hgap he _ ih =>
    obtain ⟨fuel, rfl⟩ := Nat.exists_eq_add_one_of_ne_zero (Nat.ne_zero_of_lt hfuel)
    rw [scanFlow_entry hgap he (by decide), if_pos rfl, ih (Nat.lt_of_succ_lt_succ hfuel)]
    rfl

end Entries
end TaintFlow.Yaml
