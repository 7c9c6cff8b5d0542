import Mathlib.Data.List.DropRight
import TaintFlow.Proofs.Yaml.Lines

/-!
# Mappings in block style

Rules for a mapping with a key and a value on each line, or with values on lines of their own that
are indented by more than the keys, all of which are indented alike. Comments and lines without
content may stand in between. Every text that the rules give is read back as its mapping.
-/
namespace TaintFlow.Yaml

/-- What stands behind the colon of an entry, and the lines behind it. -/
inductive ValueText (indent : Nat) : List Char → Scalar → List Char → Prop
  | absent {tail b rest : List Char} : TailText tail → LineEnd b rest →
      ValueText indent (tail ++ b) emptyScalar rest
  | given {blanks cs tail b rest : List Char} {v : Scalar} : (∀ c ∈ blanks, isBlank c) →
      blanks ≠ [] → ScalarText cs v → TailText tail → LineEnd b rest →
      ValueText indent (blanks ++ (cs ++ (tail ++ b))) v rest
  | below {tail b lines cs tail' b' rest : List Char} {column : Nat} {v : Scalar} :
      TailText tail → LineEnd b lines →
      LeadsTo lines (List.replicate column ' ' ++ (cs ++ (tail' ++ b'))) → indent < column →
      ScalarText cs v → TailText tail' → LineEnd b' rest → ValueText indent (tail ++ b) v rest

/-- The end of a document: lines without content, and markers. -/
inductive EndText : List Char → Prop
  | none {cs : List Char} : LeadsTo cs [] → EndText cs
  | marker {cs tail b rest : List Char} : LeadsTo cs ("...".toList ++ (tail ++ b)) →
      TailText tail → LineEnd b rest → EndText rest → EndText cs

/-- A mapping in block style up to the end of the document. A key that starts like a marker has to
be quoted. -/
inductive BlockText (indent : Nat) : List Char → Mapping → Prop
  | nil {cs : List Char} : EndText cs → BlockText indent cs []
  | cons {cs key value rest : List Char} {k v : Scalar} {m : Mapping} :
      LeadsTo cs (List.replicate indent ' ' ++ (key ++ ':' :: value)) → KeyText key k →
      key.head? ≠ some '-' → key.head? ≠ some '.' → ValueText indent value v rest →
      BlockText indent rest m → BlockText indent cs ((k, v) :: m)

section Key

variable {key : List Char} {k : Scalar}

theorem KeyText.contentText (h : KeyText key k) (column : Nat) (rest : List Char) :
    ContentText column (List.replicate column ' ' ++ (key ++ rest)) := by
  obtain ⟨c, r, rfl, hc⟩ := h.exists_cons
  exact .intro hc

end Key

section Marker

variable {cs tail b rest : List Char}

theorem afterMarker?_eq_none {marker : String} {c : Char} (hmarker : marker.toList.head? = some c)
    (hcs : cs.head? ≠ some c) : afterMarker? marker cs = none := by
  have hnot : marker.toList.isPrefixOf cs = false := by
    refine Bool.eq_false_iff.2 fun hyes => ?_
    obtain ⟨r, rfl⟩ := List.isPrefixOf_iff_prefix.1 hyes
    rw [List.head?_append, hmarker] at hcs
    exact hcs rfl
  simp [afterMarker?, hnot]

theorem afterMarker?_dashes_eq_none (h : cs.head? ≠ some '-') : afterMarker? "---" cs = none :=
  afterMarker?_eq_none (c := '-') rfl h

theorem afterMarker?_dots_eq_none (h : cs.head? ≠ some '.') : afterMarker? "..." cs = none :=
  afterMarker?_eq_none (c := '.') rfl h

/-- An indented line does not start with what its content does not start with. -/
theorem head?_indented_ne {column : Nat} {c : Char} (hc : c ≠ ' ')
    (hcs : column = 0 → cs.head? ≠ some c) :
    (List.replicate column ' ' ++ cs).head? ≠ some c := by
  cases column with
  | zero => exact hcs rfl
  | succ n => exact fun heq => hc (Option.some.inj heq).symm

theorem documentEnds_eq_false (hne : cs ≠ []) (hdash : cs.head? ≠ some '-')
    (hdot : cs.head? ≠ some '.') : documentEnds cs = false := by
  simp [documentEnds, hne, afterMarker?_dashes_eq_none hdash, afterMarker?_dots_eq_none hdot]

theorem afterMarker?_append (marker : String) (h : blankFirst rest) :
    afterMarker? marker (marker.toList ++ rest) = some rest := by
  have hprefix : marker.toList.isPrefixOf (marker.toList ++ rest) :=
    List.isPrefixOf_iff_prefix.2 (List.prefix_append _ _)
  simp [afterMarker?, h, hprefix]

theorem TailText.blankFirst (h : TailText tail) (hb : LineEnd b rest) : blankFirst (tail ++ b) := by
  cases h with
  | nil => cases hb <;> rfl
  | blank hc => simp [Yaml.blankFirst, hc]
  | comment hc => simp [Yaml.blankFirst, hc]

theorem TailText.dropLine (h : TailText tail) (hb : LineEnd b rest) {r : List Char}
    (hr : r.dropWhile isBlank = (tail ++ b).dropWhile isBlank) : dropLine r = rest := by
  have hblank : ∀ cs : List Char, Yaml.dropLine (cs.dropWhile isBlank) = Yaml.dropLine cs := by
    intro cs
    induction cs with
    | nil => rfl
    | cons c cs ih =>
      rw [List.dropWhile_cons]
      split
      · next hc =>
        have hbreak : c ≠ '\n' := by
          rintro rfl
          cases hc
        simpa [Yaml.dropLine, hbreak] using ih
      · rfl
  rw [← hblank, hr, hblank, dropLine_append h.newline_not_mem hb]

end Marker

section End

variable {column : Nat} {cs b rest : List Char}

theorem LineEnd.length_le (h : LineEnd b rest) : rest.length ≤ b.length := by
  cases h with
  | breaks => exact Nat.le_succ _
  | ends => exact Nat.le_refl _

theorem LeadsTo.skipLines_of_contentText (h : LeadsTo cs rest) (hrest : ContentText column rest)
    {fuel : Nat} (hfuel : cs.length ≤ fuel) : Yaml.skipLines fuel cs = rest :=
  h.skipLines (.inr ⟨column, hrest⟩) hfuel

theorem contentText_dots (rest : List Char) : ContentText 0 ("...".toList ++ rest) :=
  .intro (by decide)

/-- The lines of a document's end are skipped up to nothing or up to a marker. -/
theorem EndText.skipLines (h : EndText cs) {fuel : Nat} (hfuel : cs.length ≤ fuel) :
    EndText (skipLines fuel cs) ∧ documentEnds (Yaml.skipLines fuel cs) := by
  cases h with
  | none hcs =>
    rw [hcs.skipLines (.inl rfl) hfuel]
    exact ⟨.none .refl, rfl⟩
  | @marker _ tail b rest hcs htail hb hrest =>
    rw [hcs.skipLines_of_contentText (contentText_dots _) hfuel]
    refine ⟨.marker .refl htail hb hrest, ?_⟩
    rw [documentEnds, afterMarker?_append "..." (htail.blankFirst hb)]
    exact Bool.or_true _

/-- Nothing but markers is found at the end of a document. -/
theorem EndText.onlyEndMarkers (h : EndText cs) {fuel : Nat} (hfuel : cs.length < fuel) :
    onlyEndMarkers fuel cs := by
  induction h generalizing fuel with
  | none hcs =>
    obtain ⟨fuel, rfl⟩ := Nat.exists_eq_add_one_of_ne_zero (Nat.ne_zero_of_lt hfuel)
    rw [Yaml.onlyEndMarkers, hcs.skipLines (.inl rfl) (Nat.le_refl _)]
    rfl
  | @marker cs tail b rest hcs htail hb _ ih =>
    obtain ⟨fuel, rfl⟩ := Nat.exists_eq_add_one_of_ne_zero (Nat.ne_zero_of_lt hfuel)
    have hshorter : rest.length < fuel := by
      have hline := hcs.length_le
      have hrest := hb.length_le
      simp only [List.length_append, String.length_toList] at hline
      have hthree : "...".length = 3 := rfl
      omega
    rw [Yaml.onlyEndMarkers,
      hcs.skipLines_of_contentText (contentText_dots _) (Nat.le_refl _)]
    simp only [afterMarker?_append "..." (htail.blankFirst hb), htail.lineEnds hb rfl,
      htail.dropLine hb rfl, ih hshorter]
    rfl

end End

section Block

variable {indent : Nat} {cs value tail b rest : List Char} {v : Scalar} {m : Mapping}

theorem ValueText.blankFirst (h : ValueText indent value v rest) : blankFirst value := by
  cases h with
  | absent htail hb | below htail hb => exact htail.blankFirst hb
  | @given blanks _ _ _ _ _ hblanks hne =>
    obtain ⟨c, r, rfl⟩ := List.exists_cons_of_ne_nil hne
    simp [Yaml.blankFirst, hblanks c List.mem_cons_self]

theorem ValueText.length_le (h : ValueText indent value v rest) : rest.length ≤ value.length := by
  cases h with
  | absent _ hb | given _ _ _ _ hb =>
    have hrest := hb.length_le
    simp only [List.length_append]
    omega
  | below _ hb hlines _ _ _ hb' =>
    have hnext := hb.length_le
    have hline := hlines.length_le
    have hrest := hb'.length_le
    simp only [List.length_append] at hline ⊢
    omega

/-- An entry takes up at least its colon. -/
theorem BlockText.length_le (h : BlockText indent cs m) : m.length ≤ cs.length := by
  induction h with
  | nil => exact Nat.zero_le _
  | cons hcs _ _ _ hvalue _ ih =>
    have hline := hcs.length_le
    have hrest := hvalue.length_le
    simp only [List.length_append, List.length_cons] at hline ⊢
    omega

/-- The lines in front of an entry or of the end may be skipped. -/
theorem BlockText.skipLines (h : BlockText indent cs m) {fuel : Nat} (hfuel : cs.length ≤ fuel) :
    BlockText indent (skipLines fuel cs) m := by
  cases h with
  | nil hend => exact .nil (hend.skipLines hfuel).1
  | cons hcs hkey hdash hdot hvalue hm =>
    rw [hcs.skipLines_of_contentText (hkey.contentText indent _) hfuel]
    exact .cons .refl hkey hdash hdot hvalue hm

theorem BlockText.skipBlankLines (h : BlockText indent cs m) (fuel : Nat) :
    BlockText indent (skipBlankLines fuel indent cs) m := by
  cases h with
  | nil hend =>
    cases hend with
    | none hcs => exact .nil (.none (hcs.skipBlankLines (.inl rfl) fuel indent))
    | marker hcs htail hb hrest =>
      have hskip := hcs.skipBlankLines (.inr ⟨0, contentText_dots _⟩) fuel indent
      exact .nil (.marker hskip htail hb hrest)
  | cons hcs hkey hdash hdot hvalue hm =>
    have hskip := hcs.skipBlankLines (.inr ⟨indent, hkey.contentText indent _⟩) fuel indent
    exact .cons hskip hkey hdash hdot hvalue hm

/-- Behind the skipped lines the document ends, or the indentation is that of the mapping. -/
theorem BlockText.documentEnds_or (h : BlockText indent cs m) {fuel : Nat}
    (hfuel : cs.length ≤ fuel) :
    documentEnds (Yaml.skipLines fuel cs) ∨ indentation (Yaml.skipLines fuel cs) = indent := by
  cases h with
  | nil hend => exact .inl (hend.skipLines hfuel).2
  | cons hcs hkey =>
    rw [hcs.skipLines_of_contentText (hkey.contentText indent _) hfuel]
    exact .inr (hkey.contentText indent _).indentation

theorem contentText_scalar (h : ScalarText cs v) (column : Nat) (rest : List Char) :
    ContentText column (List.replicate column ' ' ++ (cs ++ rest)) := by
  obtain ⟨c, r, rfl, hc⟩ := h.isContentChar
  exact .intro hc

/-- The rest of a line is read as a value, with the lines behind it, which may have been skipped in
part. -/
theorem ScalarText.scanLineValue (h : ScalarText cs v) (htail : TailText tail)
    (hb : LineEnd b rest) (hrest : BlockText indent rest m) :
    ∃ r, scanLineValue indent (cs ++ (tail ++ b)) = some (v, r) ∧ BlockText indent r m := by
  obtain ⟨r, hscan, hr⟩ := h.scanScalar (htail.follows hb : Follows false _) nofun
  have hline : r.dropWhile isBlank = (tail ++ b).dropWhile isBlank := by
    rcases hr with rfl | ⟨rfl, -⟩
    · exact List.dropWhile_idempotent _ _
    · rfl
  have hnext := htail.dropLine hb hline
  rw [Yaml.scanLineValue, hscan, Option.bind_some]
  simp only [htail.lineEnds hb hline, Bool.not_true, Bool.false_eq_true, if_false]
  split
  · next t =>
    -- the break behind a plain scalar is that of its line
    obtain rfl : t = rest := hnext
    exact ⟨_, rfl, hrest.skipBlankLines _⟩
  · exact ⟨_, rfl, by rwa [hnext]⟩

theorem ValueText.scanBlockValue (h : ValueText indent value v rest)
    (hrest : BlockText indent rest m) :
    ∃ r, scanBlockValue indent value = some (v, r) ∧ BlockText indent r m := by
  cases h with
  | @absent tail b _ htail hb =>
    have hlength : rest.length ≤ (tail ++ b).length := by
      rw [List.length_append]
      exact Nat.le_trans hb.length_le (Nat.le_add_left _ _)
    refine ⟨_, ?_, hrest.skipLines hlength⟩
    rw [Yaml.scanBlockValue, if_pos (htail.lineEnds hb rfl), htail.dropLine hb rfl, if_pos]
    simp only [Bool.or_eq_true, decide_eq_true_eq]
    exact (hrest.documentEnds_or hlength).imp_right Nat.le_of_eq
  | @given blanks cs tail b _ _ hblanks _ hcs htail hb =>
    obtain ⟨c, t, hhead, hc⟩ := hcs.isContentChar
    simp only [isContentChar, Bool.and_eq_true, Bool.not_eq_true', decide_eq_true_eq] at hc
    have hdrop : (blanks ++ (cs ++ (tail ++ b))).dropWhile isBlank = cs ++ (tail ++ b) := by
      rw [List.dropWhile_append_of_pos hblanks, hhead]
      simp [hc]
    have hnot : lineEnds (blanks ++ (cs ++ (tail ++ b))) = false := by
      rw [lineEnds, hdrop, hhead]
      simp [hc]
    rw [Yaml.scanBlockValue, hnot, if_neg Bool.false_ne_true, hdrop]
    exact hcs.scanLineValue htail hb hrest
  | @below tail b lines cs tail' b' _ column _ htail hb hlines hdeeper hcs htail' hb' =>
    have hlength : lines.length ≤ (tail ++ b).length := by
      rw [List.length_append]
      exact Nat.le_trans hb.length_le (Nat.le_add_left _ _)
    have hcontent := contentText_scalar hcs column (tail' ++ b')
    have hends : documentEnds (List.replicate column ' ' ++ (cs ++ (tail' ++ b'))) = false := by
      have hcolumn : column ≠ 0 := Nat.ne_zero_of_lt hdeeper
      exact documentEnds_eq_false (by simp [hcolumn])
        (head?_indented_ne (by decide) fun h => absurd h hcolumn)
        (head?_indented_ne (by decide) fun h => absurd h hcolumn)
    rw [Yaml.scanBlockValue, if_pos (htail.lineEnds hb rfl), htail.dropLine hb rfl,
      hlines.skipLines_of_contentText hcontent hlength, if_neg, hcontent.dropIndent_eq]
    · exact hcs.scanLineValue htail' hb' hrest
    · simpa [hends, hcontent.indentation] using hdeeper

end Block

section Entries

variable {indent : Nat} {cs key value rest : List Char} {k v : Scalar} {m : Mapping}

theorem scanEntry_of_ne (h : ∀ r, cs ≠ '?' :: r) :
    scanEntry indent cs = scanPlainEntry indent cs := by
  unfold scanEntry
  split
  · exact absurd rfl (h _)
  · rfl

/-- An entry is read with the lines behind it, which may have been skipped in part. -/
theorem KeyText.scanEntry (hkey : KeyText key k) (hvalue : ValueText indent value v rest)
    (hrest : BlockText indent rest m) :
    ∃ r, scanEntry indent (key ++ ':' :: value) = some ((k, v), r) ∧ BlockText indent r m := by
  obtain ⟨r, hscan, hr⟩ := hvalue.scanBlockValue hrest
  refine ⟨r, ?_, hr⟩
  rw [scanEntry_of_ne (hkey.append_ne (by decide) (by decide) _), scanPlainEntry,
    hkey.scanKey (.inl hvalue.blankFirst), Option.bind_some]
  simp only [hvalue.blankFirst, if_true, hscan]
  rfl

/-- A line with a key does not start like a marker, unless the key itself does. -/
theorem KeyText.head?_ne (h : KeyText key k) {c : Char} (hc : c ≠ ' ') (hkey : key.head? ≠ some c) :
    (List.replicate indent ' ' ++ (key ++ rest)).head? ≠ some c := by
  obtain ⟨d, r, rfl, -⟩ := h.exists_cons
  exact head?_indented_ne hc fun _ => hkey

/-- The entries of a mapping in block style are read in their order, up to the end of the
document. -/
theorem BlockText.scanBlock (h : BlockText indent cs m) {fuel : Nat} (hfuel : m.length < fuel) :
    ∃ r, scanBlock fuel indent cs = some (m, r) ∧ EndText r := by
  -- on the mapping: behind an entry the text is only known to be one of the remaining entries
  induction m generalizing cs fuel with
  | nil =>
    obtain ⟨fuel, rfl⟩ := Nat.exists_eq_add_one_of_ne_zero (Nat.ne_zero_of_lt hfuel)
    cases h with
    | nil hend =>
      obtain ⟨hskipped, hends⟩ := hend.skipLines (Nat.le_refl _)
      exact ⟨_, by rw [Yaml.scanBlock, if_pos hends], hskipped⟩
  | cons e m ih =>
    obtain ⟨fuel, rfl⟩ := Nat.exists_eq_add_one_of_ne_zero (Nat.ne_zero_of_lt hfuel)
    cases h with
    | @cons _ key value rest k v _ hcs hkey hdash hdot hvalue hrest =>
      have hcontent := hkey.contentText indent (':' :: value)
      have hends : documentEnds (List.replicate indent ' ' ++ (key ++ ':' :: value)) = false :=
        documentEnds_eq_false (by simp) (hkey.head?_ne (by decide) hdash)
          (hkey.head?_ne (by decide) hdot)
      obtain ⟨r, hentry, hr⟩ := hkey.scanEntry hvalue hrest
      obtain ⟨r', hblock, hend⟩ := ih hr (Nat.lt_of_succ_lt_succ hfuel)
      refine ⟨r', ?_, hend⟩
      rw [Yaml.scanBlock, hcs.skipLines_of_contentText hcontent (Nat.le_refl _)]
      simp [hends, hcontent.indentation, hcontent.dropIndent_eq, hentry, hblock]

end Entries
end TaintFlow.Yaml
