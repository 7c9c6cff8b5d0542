import TaintFlow.Proofs.Yaml.Block
import TaintFlow.Proofs.Yaml.Flow

/-!
# Documents that are one mapping

Rules for a document that holds one mapping, in block style or in flow style, behind the marker
`---` or without one, with any line breaks. The reader gives the mapping back whichever of the
rules its text follows.
-/
namespace TaintFlow.Yaml

/-- A mapping between braces behind the first of them, and the end of the document. -/
inductive BracesText : List Char → Mapping → Prop
  | intro {braces tail b rest : List Char} {m : Mapping} : FlowText braces m (tail ++ b) →
      TailText tail → LineEnd b rest → EndText rest → BracesText braces m

/-- A document without markers in front. -/
inductive BodyText : List Char → Mapping → Prop
  | empty {cs : List Char} : LeadsTo cs [] → BodyText cs []
  | block {indent : Nat} {cs : List Char} {e : Scalar × Scalar} {m : Mapping} :
      BlockText indent cs (e :: m) → BodyText cs (e :: m)
  | flow {column : Nat} {cs braces : List Char} {m : Mapping} :
      LeadsTo cs (List.replicate column ' ' ++ '\x7b' :: braces) → BracesText braces m →
      BodyText cs m

/-- A document that holds one mapping. -/
inductive DocumentText : List Char → Mapping → Prop
  | bare {cs : List Char} {m : Mapping} : BodyText cs m → DocumentText cs m
  | marked {cs tail b rest : List Char} {m : Mapping} : LeadsTo cs ("---".toList ++ (tail ++ b)) →
      TailText tail → LineEnd b rest → BodyText rest m → DocumentText cs m
  | ended {cs tail b rest : List Char} : LeadsTo cs ("---".toList ++ (tail ++ b)) →
      TailText tail → LineEnd b rest → EndText rest → DocumentText cs []
  | inline {cs blanks braces : List Char} {m : Mapping} :
      LeadsTo cs ("---".toList ++ (blanks ++ '\x7b' :: braces)) → (∀ c ∈ blanks, isBlank c) →
      blanks ≠ [] → BracesText braces m → DocumentText cs m

/-- The texts that a mapping may be written as. -/
structure Written (m : Mapping) (s : String) : Prop where
  allowed : s.toList.all isAllowed
  document : DocumentText (normalizeBreaks s.toList) m

section Body

variable {column indent : Nat} {cs line braces r : List Char} {m : Mapping}

theorem EndText.closed (h : EndText r) : closed (some (m, r)) = some m := by
  rw [Yaml.closed, Option.bind_some]
  simp only [h.onlyEndMarkers (Nat.lt_succ_self _), if_true]

theorem BracesText.closed (h : BracesText braces m) : closed (flowDocument braces) = some m := by
  obtain ⟨hflow, htail, hb, hend⟩ := h
  have hscan := hflow.scanFlow (Nat.lt_succ_of_le hflow.length_le)
  rw [flowDocument, hscan, Option.bind_some]
  simp only [htail.lineEnds hb rfl, if_true, htail.dropLine hb rfl, hend.closed]

theorem content_of_block (hskip : skipLines cs.length cs = line)
    (hbrace : ∀ r, dropIndent line ≠ '\x7b' :: r) (h : BlockText (indentation line) line m) :
    content cs = some m := by
  obtain ⟨r, hscan, hend⟩ := h.scanBlock (Nat.lt_succ_of_le h.length_le)
  rw [content]
  simp only [hskip]
  rw [hscan, hend.closed]

theorem EndText.content (h : EndText cs) : content cs = some [] := by
  cases h with
  | none hcs =>
    have hskip := hcs.skipLines (.inl rfl) (Nat.le_refl _)
    exact content_of_block hskip nofun (.nil (.none .refl))
  | @marker _ tail b rest hcs htail hb hrest =>
    have hskip := hcs.skipLines_of_contentText (contentText_dots _) (Nat.le_refl _)
    exact content_of_block hskip nofun (.nil (.marker .refl htail hb hrest))

theorem BlockText.content (h : BlockText indent cs m) : content cs = some m := by
  cases h with
  | nil hend => exact hend.content
  | @cons _ key value rest _ _ _ hcs hkey hdash hdot hvalue hm =>
    have hcontent := hkey.contentText indent (':' :: value)
    refine content_of_block (hcs.skipLines_of_contentText hcontent (Nat.le_refl _)) ?_ ?_
    · rw [hcontent.dropIndent_eq]
      exact hkey.append_ne (by decide) (by decide) _
    · rw [hcontent.indentation]
      exact .cons .refl hkey hdash hdot hvalue hm

theorem contentText_brace (column : Nat) (braces : List Char) :
    ContentText column (List.replicate column ' ' ++ '\x7b' :: braces) :=
  .intro (by decide)

theorem BracesText.content (h : BracesText braces m)
    (hcs : LeadsTo cs (List.replicate column ' ' ++ '\x7b' :: braces)) : content cs = some m := by
  have hcontent := contentText_brace column braces
  rw [Yaml.content]
  simp only [hcs.skipLines_of_contentText hcontent (Nat.le_refl _), hcontent.dropIndent_eq,
    h.closed]

theorem BodyText.content (h : BodyText cs m) : content cs = some m := by
  cases h with
  | empty hcs => exact (EndText.none hcs).content
  | block hblock => exact hblock.content
  | flow hcs hbraces => exact hbraces.content hcs

/-- Without a marker in front, the lines are read from the first one that has content. -/
theorem document_of_content (hskip : skipLines cs.length cs = line)
    (hdash : line.head? ≠ some '-') (hdot : line.head? ≠ some '.') :
    document cs = content line := by
  rw [document]
  simp only [hskip, afterMarker?_dashes_eq_none hdash, afterMarker?_dots_eq_none hdot]
  rfl

theorem BodyText.document (h : BodyText cs m) : document cs = some m := by
  cases h with
  | empty hcs =>
    have hskip := hcs.skipLines (.inl rfl) (Nat.le_refl _)
    rw [document_of_content hskip nofun nofun]
    exact (EndText.none .refl).content
  | @block indent _ e m hblock =>
    cases hblock with
    | cons hcs hkey hdash hdot hvalue hm =>
      have hskip := hcs.skipLines_of_contentText (hkey.contentText indent _) (Nat.le_refl _)
      rw [document_of_content hskip (hkey.head?_ne (by decide) hdash)
        (hkey.head?_ne (by decide) hdot)]
      exact (BlockText.cons .refl hkey hdash hdot hvalue hm).content
  | @flow column _ braces _ hcs hbraces =>
    have hskip := hcs.skipLines_of_contentText (contentText_brace column braces) (Nat.le_refl _)
    rw [document_of_content hskip (head?_indented_ne (by decide) fun _ => by simp)
      (head?_indented_ne (by decide) fun _ => by simp)]
    exact hbraces.content .refl

theorem document_of_marked (hcs : LeadsTo cs ("---".toList ++ r)) (hr : blankFirst r) :
    document cs = markedDocument r := by
  have hcontent : ContentText 0 ("---".toList ++ r) := .intro (by decide)
  rw [document]
  simp only [hcs.skipLines_of_contentText hcontent (Nat.le_refl _), afterMarker?_append "---" hr]

/-- A marker that stands alone on its line opens what the lines behind it hold. -/
theorem document_of_marked_line {tail b rest : List Char}
    (hcs : LeadsTo cs ("---".toList ++ (tail ++ b))) (htail : TailText tail)
    (hb : LineEnd b rest) : document cs = content rest := by
  rw [document_of_marked hcs (htail.blankFirst hb), markedDocument,
    if_pos (htail.lineEnds hb rfl), htail.dropLine hb rfl]

/-- A document is read as its mapping. -/
theorem DocumentText.document (h : DocumentText cs m) : document cs = some m := by
  cases h with
  | bare hbody => exact hbody.document
  | marked hcs htail hb hbody =>
    rw [document_of_marked_line hcs htail hb, hbody.content]
  | ended hcs htail hb hend =>
    rw [document_of_marked_line hcs htail hb, hend.content]
  | @inline blanks braces _ hcs hblanks hne hbraces =>
    have hblank : blankFirst (blanks ++ '\x7b' :: braces) := by
      obtain ⟨c, r, rfl⟩ := List.exists_cons_of_ne_nil hne
      simp [blankFirst, hblanks c List.mem_cons_self]
    have hdrop : (blanks ++ '\x7b' :: braces).dropWhile isBlank = '\x7b' :: braces := by
      rw [List.dropWhile_append_of_pos hblanks]
      rfl
    have hends : lineEnds (blanks ++ '\x7b' :: braces) = false := by
      rw [lineEnds, hdrop]
      rfl
    rw [document_of_marked hcs hblank, markedDocument, hends, if_neg Bool.false_ne_true, hdrop]
    exact hbraces.closed

/-- Reading a mapping gives it back, however it was written. -/
theorem Written.ofText? {s : String} (h : Written m s) : Mapping.ofText? s = some m := by
  rw [Mapping.ofText?]
  simp only [h.allowed, if_true, h.document.document]

end Body
end TaintFlow.Yaml
