import TaintFlow.Proofs.Yaml.Scalar

/-!
# Lines of YAML documents

Rules for what stands between the entries of a document: the rest of a line behind its content, and
lines without content. The reader passes over both, and comes to the next line that has content.
-/
namespace TaintFlow.Yaml

/-- The rest of a line behind its content: blanks, and perhaps a comment behind a blank. -/
inductive TailText : List Char → Prop
  | nil : TailText []
  | blank {c : Char} {cs : List Char} : isBlank c → TailText cs → TailText (c :: cs)
  | comment {c : Char} {cs : List Char} : isBlank c → '\n' ∉ cs → TailText (c :: '#' :: cs)

/-- The end of a line, and the lines behind it. The last line may lack its break. -/
inductive LineEnd : List Char → List Char → Prop
  | breaks {rest : List Char} : LineEnd ('\n' :: rest) rest
  | ends : LineEnd [] []

/-- A line without content. -/
inductive EmptyText : List Char → Prop
  | nil : EmptyText []
  | space {cs : List Char} : EmptyText cs → EmptyText (' ' :: cs)
  | comment {cs : List Char} : '\n' ∉ cs → EmptyText ('#' :: cs)

/-- Nothing but lines without content stands in front of the given lines. -/
inductive LeadsTo : List Char → List Char → Prop
  | refl {cs : List Char} : LeadsTo cs cs
  | line {e cs rest : List Char} : EmptyText e → LeadsTo cs rest → LeadsTo (e ++ '\n' :: cs) rest
  | last {e : List Char} : EmptyText e → LeadsTo e []

/-- Characters that the content of a line may start with. -/
def isContentChar (c : Char) : Bool := !isBlank c && c ≠ '\n' && c ≠ '#' && c ≠ byteOrderMark

/-- Lines of which the first has content that starts in the given column. -/
inductive ContentText (column : Nat) : List Char → Prop
  | intro {c : Char} {r : List Char} : isContentChar c →
      ContentText column (List.replicate column ' ' ++ c :: r)

/-- Lines of which the first has content, or no lines at all. -/
def Settled (cs : List Char) : Prop := cs = [] ∨ ∃ column, ContentText column cs

theorem ScalarText.isContentChar {cs : List Char} {s : Scalar} (h : ScalarText cs s) :
    ∃ c r, cs = c :: r ∧ isContentChar c := by
  obtain ⟨c, r, rfl, hstart | hmem⟩ := h.exists_cons
  · refine ⟨c, r, rfl, ?_⟩
    have hsign : c ≠ '#' := by
      rintro rfl
      exact absurd hstart (by decide)
    simp only [isStartChar, Bool.and_eq_true, Bool.not_eq_true', decide_eq_true_eq] at hstart
    simp [Yaml.isContentChar, hstart, hsign]
  · have hall : "-'\"".toList.all Yaml.isContentChar := by decide
    exact ⟨c, r, rfl, List.all_eq_true.1 hall c hmem⟩

theorem KeyText.exists_cons {key : List Char} {k : Scalar} (h : KeyText key k) :
    ∃ c r, key = c :: r ∧ isContentChar c := by
  obtain @⟨cs, blanks, k, hcs, -, -⟩ := h
  obtain ⟨c, r, rfl, hc⟩ := hcs.isContentChar
  exact ⟨c, r ++ blanks, rfl, hc⟩

section Tail

variable {inFlow : Bool} {tail b rest : List Char}

theorem TailText.newline_not_mem (h : TailText tail) : '\n' ∉ tail := by
  induction h with
  | nil => exact List.not_mem_nil
  | @blank c cs hc _ ih =>
    have hbreak : '\n' ≠ c := by
      rintro rfl
      exact absurd hc (by decide)
    simp [hbreak, ih]
  | @comment c cs hc hcs =>
    have hbreak : '\n' ≠ c := by
      rintro rfl
      exact absurd hc (by decide)
    simp [hbreak, hcs]

theorem TailText.follows (h : TailText tail) (hb : LineEnd b rest) :
    Follows inFlow (tail ++ b) := by
  induction h with
  | nil =>
    cases hb with
    | breaks => exact .breaks
    | ends => exact .ends
  | blank hc _ ih => exact .blank hc ih
  | comment hc => exact .comment hc

theorem dropLine_append {cs : List Char} (hcs : '\n' ∉ cs) (hb : LineEnd b rest) :
    dropLine (cs ++ b) = rest := by
  have hall : ∀ c ∈ cs, decide (c ≠ '\n') = true := fun c hc =>
    decide_eq_true fun heq => hcs (heq ▸ hc)
  rw [dropLine, List.dropWhile_append_of_pos hall]
  cases hb with
  | breaks => rfl
  | ends => rfl

/-- Behind its blanks the rest of a line is a break or a comment. -/
theorem TailText.dropWhile (h : TailText tail) (hb : LineEnd b rest) :
    (tail ++ b).dropWhile isBlank = b ∨
      ∃ cs, '\n' ∉ cs ∧ (tail ++ b).dropWhile isBlank = '#' :: (cs ++ b) := by
  induction h with
  | nil =>
    left
    cases hb with
    | breaks => rfl
    | ends => rfl
  | blank hc _ ih => rwa [List.cons_append, List.dropWhile_cons_of_pos hc]
  | @comment c cs hc hcs =>
    right
    refine ⟨cs, hcs, ?_⟩
    rw [List.cons_append, List.dropWhile_cons_of_pos hc]
    rfl

theorem TailText.lineEnds (h : TailText tail) (hb : LineEnd b rest) {r : List Char}
    (hr : r.dropWhile isBlank = (tail ++ b).dropWhile isBlank) : lineEnds r := by
  rw [Yaml.lineEnds, hr]
  rcases h.dropWhile hb with hbreak | ⟨cs, -, hcomment⟩
  · rw [hbreak]
    cases hb with
    | breaks => rfl
    | ends => rfl
  · rw [hcomment]
    rfl

end Tail

section Content

variable {column : Nat} {cs rest : List Char}

theorem dropMark_of_ne {cs : List Char} (h : cs.head? ≠ some byteOrderMark) : dropMark cs = cs :=
  if_neg h

/-- The indentation of a line with content is all that stands in front of the content. -/
theorem ContentText.dropIndent (h : ContentText column cs) :
    ∃ c r, isContentChar c ∧ cs = List.replicate column ' ' ++ c :: r ∧
      Yaml.dropIndent cs = c :: r := by
  obtain @⟨c, r, hc⟩ := h
  have hcontent := hc
  simp only [isContentChar, Bool.and_eq_true, Bool.not_eq_true', decide_eq_true_eq] at hcontent
  obtain ⟨⟨⟨hblank, -⟩, -⟩, hmark⟩ := hcontent
  have hspace : c ≠ ' ' := by
    rintro rfl
    cases hblank
  have hhead : (List.replicate column ' ' ++ c :: r).head? ≠ some byteOrderMark := by
    cases column with
    | zero => exact fun heq => hmark (Option.some.inj heq)
    | succ n => exact fun heq => absurd (Option.some.inj heq) (by decide)
  refine ⟨c, r, hc, rfl, ?_⟩
  rw [Yaml.dropIndent, dropMark_of_ne hhead, List.dropWhile_append_of_pos (by simp)]
  simp [hspace]

theorem ContentText.dropIndent_eq {text : List Char}
    (h : ContentText column (List.replicate column ' ' ++ text)) :
    Yaml.dropIndent (List.replicate column ' ' ++ text) = text := by
  obtain ⟨c, r, -, htext, hdrop⟩ := h.dropIndent
  rw [hdrop, ← List.append_cancel_left htext]

theorem ContentText.dropWhile (h : ContentText column cs) :
    ∃ c r, isContentChar c ∧ cs.dropWhile isBlank = c :: r := by
  obtain @⟨c, r, hc⟩ := h
  have hblank : isBlank c = false := by
    simp only [isContentChar, Bool.and_eq_true, Bool.not_eq_true', decide_eq_true_eq] at hc
    exact hc.1.1.1
  have hspaces : ∀ d ∈ List.replicate column ' ', isBlank d := by
    intro d hd
    rw [List.eq_of_mem_replicate hd]
    rfl
  refine ⟨c, r, hc, ?_⟩
  rw [List.dropWhile_append_of_pos hspaces]
  simp [hblank]

theorem ContentText.indentation (h : ContentText column cs) : indentation cs = column := by
  obtain ⟨c, r, -, hcs, hdrop⟩ := h.dropIndent
  rw [Yaml.indentation, hdrop, hcs, List.length_append, List.length_replicate]
  omega

theorem ContentText.emptyLine (h : ContentText column cs) : emptyLine cs = false := by
  obtain ⟨c, r, hc, -, hdrop⟩ := h.dropIndent
  simp only [isContentChar, Bool.and_eq_true, decide_eq_true_eq] at hc
  simp [Yaml.emptyLine, hdrop, hc]

theorem EmptyText.newline_not_mem {e : List Char} (h : EmptyText e) : '\n' ∉ e := by
  induction h with
  | nil => exact List.not_mem_nil
  | space _ ih => simp [ih]
  | comment hcs => simp [hcs]

/-- In front of the end of a line without content there are spaces and perhaps a comment. -/
theorem EmptyText.dropWhile {e b : List Char} (h : EmptyText e) (hb : LineEnd b rest)
    {p : Char → Bool} (hspace : p ' ') (hsign : p '#' = false) (hbreak : p '\n' = false) :
    (e ++ b).dropWhile p = b ∨ ∃ t, '\n' ∉ t ∧ (e ++ b).dropWhile p = '#' :: (t ++ b) := by
  induction h with
  | nil => cases hb <;> simp [hbreak]
  | space _ ih => simpa [hspace] using ih
  | comment hcs => exact .inr ⟨_, hcs, by simp [hsign]⟩

theorem EmptyText.emptyLine {e b : List Char} (h : EmptyText e) (hb : LineEnd b rest) :
    emptyLine (e ++ b) := by
  have hmark : (e ++ b).head? ≠ some byteOrderMark := by
    cases h with
    | nil => cases hb <;> simp [byteOrderMark]
    | space => simp [byteOrderMark]
    | comment => simp [byteOrderMark]
  rw [Yaml.emptyLine, Yaml.dropIndent, dropMark_of_ne hmark]
  rcases h.dropWhile hb (p := (· = ' ')) rfl rfl rfl with hbreak | ⟨t, -, hcomment⟩
  · rw [hbreak]
    cases hb <;> rfl
  · rw [hcomment]
    rfl

theorem LeadsTo.length_le (h : LeadsTo cs rest) : rest.length ≤ cs.length := by
  induction h with
  | refl => exact Nat.le_refl _
  | line _ _ ih =>
    rw [List.length_append, List.length_cons]
    omega
  | last => exact Nat.zero_le _

theorem skipLines_nil (fuel : Nat) : skipLines fuel [] = [] := by
  cases fuel <;> rfl

theorem skipLines_of_emptyLine {fuel : Nat} (h : emptyLine cs) (hne : cs ≠ []) :
    skipLines (fuel + 1) cs = skipLines fuel (dropLine cs) := by
  obtain ⟨c, r, rfl⟩ := List.exists_cons_of_ne_nil hne
  exact if_pos h

/-- Lines without content are skipped, and nothing else is. -/
theorem LeadsTo.skipLines (h : LeadsTo cs rest) (hrest : Settled rest) {fuel : Nat}
    (hfuel : cs.length ≤ fuel) : skipLines fuel cs = rest := by
  induction h generalizing fuel with
  | refl =>
    rcases hrest with rfl | ⟨column, hcontent⟩
    · exact skipLines_nil fuel
    · unfold Yaml.skipLines
      split
      · rw [hcontent.emptyLine]
        rfl
      · rfl
  | @line e cs rest he _ ih =>
    rw [List.length_append, List.length_cons] at hfuel
    obtain ⟨fuel, rfl⟩ := Nat.exists_eq_add_one_of_ne_zero (n := fuel) (by omega)
    rw [skipLines_of_emptyLine (he.emptyLine .breaks) (by simp),
      dropLine_append he.newline_not_mem .breaks]
    exact ih hrest (by omega)
  | @last e he =>
    cases e with
    | nil => exact skipLines_nil fuel
    | cons c e =>
      obtain ⟨fuel, rfl⟩ := Nat.exists_eq_add_one_of_ne_zero (Nat.ne_zero_of_lt hfuel)
      have hempty : emptyLine (c :: e) := by simpa using he.emptyLine .ends
      have hdrop : dropLine (c :: e) = [] := by simpa using dropLine_append he.newline_not_mem .ends
      rw [skipLines_of_emptyLine hempty (by simp), hdrop, skipLines_nil]

/-- Behind a plain scalar some of the lines without content may be skipped at once. -/
theorem LeadsTo.skipBlankLines (h : LeadsTo cs rest) (hrest : Settled rest) (fuel indent : Nat) :
    LeadsTo (skipBlankLines fuel indent cs) rest := by
  induction h generalizing fuel with
  | refl =>
    cases fuel with
    | zero => exact .refl
    | succ fuel =>
      rw [Yaml.skipBlankLines]
      split
      · exact .refl
      · rcases hrest with rfl | ⟨column, hcontent⟩
        · exact .refl
        · obtain ⟨c, r, hc, hdrop⟩ := hcontent.dropWhile
          rw [hdrop]
          split
          · contradiction
          · rename_i heq
            cases heq
            exact absurd hc (by decide)
          · rename_i heq
            cases heq
            exact absurd hc (by decide)
          · exact .refl
  | @line e cs rest he hcs ih =>
    cases fuel with
    | zero => exact .line he hcs
    | succ fuel =>
      rw [Yaml.skipBlankLines]
      split
      · exact .line he hcs
      · rcases he.dropWhile .breaks (p := isBlank) rfl rfl rfl with hbreak | ⟨t, ht, hcomment⟩
        · rw [hbreak]
          exact ih hrest fuel
        · rw [hcomment]
          show LeadsTo (dropLine (t ++ '\n' :: cs)) rest
          rwa [dropLine_append ht .breaks]
  | @last e he =>
    cases fuel with
    | zero => exact .last he
    | succ fuel =>
      rw [Yaml.skipBlankLines]
      split
      · exact .last he
      · have hend := he.dropWhile .ends (p := isBlank) rfl rfl rfl
        rw [List.append_nil] at hend
        rcases hend with hnone | ⟨t, ht, hcomment⟩
        · rw [hnone]
          exact .refl
        · rw [hcomment]
          show LeadsTo (dropLine (t ++ [])) []
          rw [dropLine_append ht .ends]
          exact .refl

end Content
end TaintFlow.Yaml
