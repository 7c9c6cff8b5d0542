import Mathlib.Logic.Function.Basic
import TaintFlow.CanonicalName

/-!
# Templates as sequences of literals and placeholders

A template is resolved by two replacements over its whole text, one after the other. Here the text
is taken as literals with placeholders between them, and the two replacements are shown to be one
substitution into the placeholders. A text put in for one placeholder could be part of another only
if a percent sign stood in it, or if it stood as a word between the percent sign that closes one
placeholder and the percent sign that opens the next.
-/
namespace TaintFlow

namespace Substitution

/-- The pattern starts nowhere in a text that stands in front of `after`. -/
def Misses (pattern after : List Char) : List Char → Prop
  | [] => True
  | c :: before => pattern.isPrefixOf (c :: (before ++ after)) = false ∧ Misses pattern after before

variable {first : Char} {pattern front before after : List Char}

theorem misses_append (hfront : Misses pattern (before ++ after) front)
    (hback : Misses pattern after before) : Misses pattern after (front ++ before) := by
  induction front with
  | nil => exact hback
  | cons c front ih =>
      obtain ⟨hc, hfront⟩ := hfront
      rw [← List.append_assoc] at hc
      exact ⟨hc, ih hfront⟩

theorem misses_of_not_mem (hfirst : first ∉ before) : Misses (first :: pattern) after before := by
  induction before with
  | nil => trivial
  | cons c before ih =>
      obtain ⟨hc, hbefore⟩ := not_or.1 (List.mem_cons.not.1 hfirst)
      exact ⟨by rw [List.isPrefixOf, beq_false_of_ne hc, Bool.false_and], ih hbefore⟩

theorem Misses.replaceAll_append (h : Misses pattern after before) (replacement : List Char) :
    replaceAll pattern replacement (before ++ after) =
      before ++ replaceAll pattern replacement after := by
  induction before with
  | nil => rfl
  | cons c before ih =>
      obtain ⟨hc, hbefore⟩ := h
      rw [List.cons_append, replaceAll, replaceFrom, hc, if_neg Bool.false_ne_true]
      exact congrArg (c :: ·) (ih hbefore)

theorem Misses.occursIn_append (h : Misses pattern after before) :
    occursIn pattern (before ++ after) = occursIn pattern after := by
  induction before with
  | nil => rfl
  | cons c before ih =>
      obtain ⟨hc, hbefore⟩ := h
      rw [List.cons_append, occursIn, hc, Bool.false_or, ih hbefore]

/-- The rest of an occurrence is skipped. -/
theorem replaceFrom_append (occurrence after replacement : List Char) :
    replaceFrom pattern replacement occurrence.length (occurrence ++ after) =
      replaceAll pattern replacement after := by
  induction occurrence with
  | nil => rfl
  | cons c occurrence ih => exact ih

theorem isPrefixOf_append_self (occurrence after : List Char) :
    occurrence.isPrefixOf (occurrence ++ after) = true :=
  List.isPrefixOf_iff_prefix.2 (List.prefix_append _ _)

theorem replaceAll_append_self (first : Char) (pattern after replacement : List Char) :
    replaceAll (first :: pattern) replacement (first :: pattern ++ after) =
      replacement ++ replaceAll (first :: pattern) replacement after := by
  have hoccurs := isPrefixOf_append_self (first :: pattern) after
  rw [List.cons_append] at hoccurs ⊢
  rw [replaceAll, replaceFrom, if_pos hoccurs, List.length_cons, Nat.add_sub_cancel,
    replaceFrom_append]

theorem occursIn_append_self (first : Char) (pattern after : List Char) :
    occursIn (first :: pattern) (first :: pattern ++ after) = true := by
  have hoccurs := isPrefixOf_append_self (first :: pattern) after
  rw [List.cons_append] at hoccurs ⊢
  rw [occursIn, hoccurs, Bool.true_or]

end Substitution

namespace CanonicalName
open Substitution

/-- Text of a template outside its placeholders. -/
structure Literal where
  chars : List Char
  noPercent : '%' ∉ chars

instance : Append Literal where
  append l m := ⟨l.chars ++ m.chars, by simp [l.noPercent, m.noPercent]⟩

@[simp]
theorem Literal.chars_append (l m : Literal) : (l ++ m).chars = l.chars ++ m.chars := rfl

/-- What a placeholder is called. -/
structure Word where
  chars : List Char
  ne_nil : chars ≠ []
  isWordChar : ∀ c ∈ chars, CanonicalName.isWordChar c
deriving DecidableEq

namespace Word

def leaf : Word :=
  ⟨"programmatic_leaf_name".toList, by decide, List.all_eq_true.1 (by decide)⟩

def viaType : Word := ⟨"via_type_of".toList, by decide, List.all_eq_true.1 (by decide)⟩

variable {w u : Word}

def placeholder (w : Word) : List Char := '%' :: (w.chars ++ ['%'])

theorem placeholder_append (w : Word) (cs : List Char) :
    w.placeholder ++ cs = '%' :: (w.chars ++ '%' :: cs) := by
  simp [placeholder]

theorem noPercent (w : Word) : '%' ∉ w.chars :=
  fun hpercent => absurd (w.isWordChar '%' hpercent) (by decide)

theorem ext_chars (h : w.chars = u.chars) : w = u := by
  cases w
  cases u
  cases h
  rfl

/-- A placeholder starts at a percent sign if its word stands before the next one. -/
theorem placeholder_isPrefixOf_iff {before after : List Char} (hbefore : '%' ∉ before) :
    w.placeholder.isPrefixOf ('%' :: (before ++ '%' :: after)) ↔ w.chars = before := by
  rw [List.isPrefixOf_iff_prefix, placeholder, List.cons_prefix_cons]
  -- Either word ends at the first percent sign.
  have htake {cs rest : List Char} (hcs : '%' ∉ cs) :
      (cs ++ '%' :: rest).takeWhile (· ≠ '%') = cs := by
    have hpos : ∀ c ∈ cs, decide (c ≠ '%') = true :=
      fun c hc => decide_eq_true (List.forall_mem_ne'.2 hcs c hc)
    rw [List.takeWhile_append_of_pos hpos]
    simp
  constructor
  · rintro ⟨-, tail, htail⟩
    rw [List.append_assoc, List.singleton_append] at htail
    have hword := congrArg (List.takeWhile (· ≠ '%')) htail
    rwa [htake w.noPercent, htake hbefore] at hword
  · rintro rfl
    exact ⟨rfl, after, by simp⟩

theorem misses_literal (w : Word) (l : Literal) (after : List Char) :
    Misses w.placeholder after l.chars := misses_of_not_mem l.noPercent

/-- Another placeholder is missed if its last percent sign does not open one. -/
theorem misses_placeholder {after : List Char} (hu : u ≠ w)
    (hafter : w.placeholder.isPrefixOf ('%' :: after) = false) :
    Misses w.placeholder after u.placeholder := by
  refine ⟨?_, misses_append (misses_of_not_mem u.noPercent) ⟨hafter, trivial⟩⟩
  rw [List.append_assoc, List.singleton_append, Bool.eq_false_iff, Ne,
    placeholder_isPrefixOf_iff u.noPercent]
  exact fun hchars => hu (ext_chars hchars.symm)

end Word

theorem hasPlaceholder_append (cs : List Char) {ds : List Char} (h : hasPlaceholder ds = true) :
    hasPlaceholder (cs ++ ds) = true := by
  induction cs with
  | nil => exact h
  | cons c cs ih => rw [List.cons_append, hasPlaceholder, ih, Bool.or_true]

theorem hasPlaceholder_of_noPercent {cs : List Char} (h : '%' ∉ cs) : hasPlaceholder cs = false := by
  induction cs with
  | nil => rfl
  | cons c cs ih =>
      obtain ⟨hc, hcs⟩ := not_or.1 (List.mem_cons.not.1 h)
      rw [hasPlaceholder, decide_eq_false (Ne.symm hc), Bool.false_and, Bool.false_or, ih hcs]

theorem closesPlaceholder_word (u : Word) (cs : List Char) :
    closesPlaceholder (u.chars ++ '%' :: cs) = true := by
  have htake : (u.chars ++ '%' :: cs).takeWhile isWordChar = u.chars := by
    rw [List.takeWhile_append_of_pos u.isWordChar, List.takeWhile_cons_of_neg (by decide),
      List.append_nil]
  have hdrop : (u.chars ++ '%' :: cs).dropWhile isWordChar = '%' :: cs := by
    rw [List.dropWhile_append_of_pos u.isWordChar, List.dropWhile_cons_of_neg (by decide)]
  obtain ⟨c, r, hword⟩ := List.exists_cons_of_ne_nil u.ne_nil
  rw [closesPlaceholder, htake, hdrop, hword]
  rfl

/-- Literals with placeholders between them. -/
inductive Template where
  | last (l : Literal)
  | cons (l : Literal) (w : Word) (rest : Template)

namespace Template

/-- The literals in order, with a value in place of each placeholder. -/
def fill (value : Word → List Char) : Template → List Char
  | last l => l.chars
  | cons l w rest => l.chars ++ (value w ++ rest.fill value)

def chars (t : Template) : List Char := t.fill Word.placeholder

def words : Template → List Word
  | last _ => []
  | cons _ w rest => w :: rest.words

/-- The literals that a placeholder follows. -/
def opening : Template → List Literal
  | last _ => []
  | cons l _ rest => l :: rest.opening

/-- The literals between two placeholders. -/
def between : Template → List Literal
  | last _ => []
  | cons _ _ rest => rest.opening

def prepend (l : Literal) : Template → Template
  | last m => last (l ++ m)
  | cons m w rest => cons (l ++ m) w rest

/-- The template in which a literal stands in place of one of the placeholders. -/
def absorb (w : Word) (v : Literal) : Template → Template
  | last l => last l
  | cons l u rest => if u = w then (rest.absorb w v).prepend (l ++ v) else cons l u (rest.absorb w v)

variable {w : Word} {v : Literal} {t : Template}

@[simp]
theorem fill_prepend (value : Word → List Char) (l : Literal) (t : Template) :
    (t.prepend l).fill value = l.chars ++ t.fill value := by
  cases t <;> simp [prepend, fill]

@[simp]
theorem words_prepend (l : Literal) (t : Template) : (t.prepend l).words = t.words := by
  cases t <;> rfl

theorem between_prepend (l : Literal) (t : Template) : (t.prepend l).between = t.between := by
  cases t <;> rfl

theorem fill_congr {f g : Word → List Char} (h : ∀ w ∈ t.words, f w = g w) :
    t.fill f = t.fill g := by
  induction t with
  | last l => rfl
  | cons l w rest ih =>
      obtain ⟨hw, hrest⟩ := List.forall_mem_cons.1 h
      rw [fill, fill, hw, ih hrest]

theorem between_subset_opening (t : Template) : t.between ⊆ t.opening := by
  cases t with
  | last l => exact fun _ hl => hl
  | cons l w rest => exact List.subset_cons_self _ _

theorem words_absorb (w : Word) (v : Literal) (t : Template) :
    (t.absorb w v).words = t.words.filter (· ≠ w) := by
  induction t with
  | last l => rfl
  | cons l u rest ih =>
      by_cases hu : u = w
      · simp [absorb, words, hu, ih]
      · simp [absorb, words, hu, ih]

theorem fill_absorb (value : Word → List Char) (w : Word) (v : Literal) (t : Template) :
    (t.absorb w v).fill value = t.fill (Function.update value w v.chars) := by
  induction t with
  | last l => rfl
  | cons l u rest ih =>
      by_cases hu : u = w
      · simp [absorb, fill, hu, ih]
      · simp [absorb, fill, hu, ih]

/-- A literal that stands in front of a placeholder is one that stood there before, or what was put
in is part of it. -/
theorem opening_absorb {l : Literal} (h : l ∈ (t.absorb w v).opening) :
    l ∈ t.opening ∨ v.chars ⊆ l.chars := by
  induction t with
  | last m => exact .inl h
  | cons m u rest ih =>
      by_cases hu : u = w
      · rw [absorb, if_pos hu] at h
        cases hrest : rest.absorb w v with
        | last m' =>
            rw [hrest] at h
            cases h
        | cons m' u' rest' =>
            rw [hrest] at h ih
            rcases List.mem_cons.1 h with rfl | h
            · exact .inr fun c hc => by simp [hc]
            · exact (ih (List.mem_cons_of_mem _ h)).imp_left (List.mem_cons_of_mem _)
      · rw [absorb, if_neg hu] at h
        rcases List.mem_cons.1 h with rfl | h
        · exact .inl List.mem_cons_self
        · exact (ih h).imp_left (List.mem_cons_of_mem _)

theorem between_absorb {l : Literal} (h : l ∈ (t.absorb w v).between) :
    l ∈ t.between ∨ v.chars ⊆ l.chars := by
  cases t with
  | last m => exact .inl h
  | cons m u rest =>
      by_cases hu : u = w
      · rw [absorb, if_pos hu, between_prepend] at h
        exact opening_absorb (between_subset_opening _ h)
      · rw [absorb, if_neg hu] at h
        exact opening_absorb h

/-- No literal between two placeholders is the word, for which the percent signs at its ends would be
those of a placeholder. -/
def Separates (w : Word) (t : Template) : Prop := ∀ l ∈ t.between, l.chars ≠ w.chars

theorem Separates.rest {l : Literal} {u : Word} (h : (cons l u t).Separates w) : t.Separates w :=
  fun m hm => h m (between_subset_opening t hm)

theorem chars_cons (l : Literal) (u : Word) (t : Template) :
    (cons l u t).chars = l.chars ++ (u.placeholder ++ t.chars) := rfl

/-- The percent sign that closes a placeholder opens none. -/
theorem placeholder_isPrefixOf_chars (h : ∀ l ∈ t.opening, l.chars ≠ w.chars) :
    w.placeholder.isPrefixOf ('%' :: t.chars) = false := by
  rw [Bool.eq_false_iff, Ne]
  cases t with
  | last l =>
      intro hprefix
      obtain ⟨-, hword⟩ := List.cons_prefix_cons.1 (List.isPrefixOf_iff_prefix.1 hprefix)
      exact l.noPercent (hword.subset (by simp))
  | cons l u rest =>
      rw [chars_cons, Word.placeholder_append, Word.placeholder_isPrefixOf_iff l.noPercent]
      exact fun hchars => h l List.mem_cons_self hchars.symm

/-- What the search for a placeholder passes over in front of another one. -/
theorem Separates.misses {l : Literal} {u : Word} (h : (cons l u t).Separates w) (hu : u ≠ w) :
    Misses w.placeholder t.chars (l.chars ++ u.placeholder) :=
  misses_append (w.misses_literal l _) (Word.misses_placeholder hu (placeholder_isPrefixOf_chars h))

theorem replaceAll_chars (h : t.Separates w) (v : Literal) :
    replaceAll w.placeholder v.chars t.chars = (t.absorb w v).chars := by
  induction t with
  | last l =>
      have hmisses := (w.misses_literal l []).replaceAll_append v.chars
      rw [List.append_nil] at hmisses
      exact hmisses.trans (List.append_nil _)
  | cons l u rest ih =>
      have hrest := ih h.rest
      by_cases hu : u = w
      · subst hu
        have hself : replaceAll u.placeholder v.chars (u.placeholder ++ rest.chars) =
            v.chars ++ replaceAll u.placeholder v.chars rest.chars :=
          replaceAll_append_self '%' (u.chars ++ ['%']) rest.chars v.chars
        rw [chars_cons, (u.misses_literal l _).replaceAll_append, hself, hrest, absorb, if_pos rfl,
          chars, chars, fill_prepend, Literal.chars_append, List.append_assoc]
      · rw [chars_cons, ← List.append_assoc, (h.misses hu).replaceAll_append, hrest, absorb,
          if_neg hu, chars_cons, List.append_assoc]

theorem occursIn_chars_iff (h : t.Separates w) :
    occursIn w.placeholder t.chars = true ↔ w ∈ t.words := by
  induction t with
  | last l =>
      have hmisses := (w.misses_literal l []).occursIn_append
      rw [List.append_nil] at hmisses
      have hno : occursIn w.placeholder (last l).chars = false := hmisses
      exact iff_of_false (Bool.eq_false_iff.1 hno) List.not_mem_nil
  | cons l u rest ih =>
      by_cases hu : u = w
      · subst hu
        have hself : occursIn u.placeholder (u.placeholder ++ rest.chars) = true :=
          occursIn_append_self '%' (u.chars ++ ['%']) rest.chars
        rw [chars_cons, (u.misses_literal l _).occursIn_append, hself]
        exact iff_of_true rfl List.mem_cons_self
      · rw [chars_cons, ← List.append_assoc, (h.misses hu).occursIn_append, ih h.rest, words,
          List.mem_cons, or_iff_right (Ne.symm hu)]

theorem Separates.absorb (h : t.Separates w) (u : Word) (hv : ¬ v.chars ⊆ w.chars) :
    (t.absorb u v).Separates w := by
  intro l hl hchars
  rcases between_absorb hl with hl | hpart
  · exact h l hl hchars
  · exact hv (hchars ▸ hpart)

theorem absorb_of_not_mem (h : w ∉ t.words) (v : Literal) : t.absorb w v = t := by
  induction t with
  | last l => rfl
  | cons l u rest ih =>
      obtain ⟨hu, hrest⟩ := not_or.1 (List.mem_cons.not.1 h)
      rw [Template.absorb, if_neg (Ne.symm hu), ih hrest]

/-- No placeholder is found in the text unless the template has one. -/
theorem hasPlaceholder_chars_iff (t : Template) : hasPlaceholder t.chars = true ↔ t.words ≠ [] := by
  cases t with
  | last l =>
      have hno : hasPlaceholder (last l).chars = false := hasPlaceholder_of_noPercent l.noPercent
      exact iff_of_false (Bool.eq_false_iff.1 hno) fun hne => hne rfl
  | cons l u rest =>
      refine iff_of_true (hasPlaceholder_append l.chars ?_) (List.cons_ne_nil _ _)
      change hasPlaceholder (u.placeholder ++ rest.chars) = true
      rw [Word.placeholder_append, hasPlaceholder, closesPlaceholder_word]
      rfl

end Template

theorem toList_leafPlaceholder : leafPlaceholder.toList = Word.leaf.placeholder := rfl

theorem toList_viaTypePlaceholder : viaTypePlaceholder.toList = Word.viaType.placeholder := rfl

theorem viaTypeName?_eq_some_iff {f : Feature} {name : String} :
    viaTypeName? f = some name ↔ f = ⟨viaTypeWord ++ name⟩ := by
  unfold viaTypeName?
  constructor
  · intro h
    split at h
    · rename_i hprefix
      obtain ⟨r, hr⟩ := List.isPrefixOf_iff_prefix.1 hprefix
      rw [← hr, List.drop_left, Option.some.injEq] at h
      have htext : f.text = viaTypeWord ++ name := by
        rw [← h, ← String.toList_inj, ← hr, String.toList_append, String.toList_ofList]
      exact htext ▸ rfl
    · cases h
  · rintro rfl
    simp [String.toList_append]

namespace Template

variable {t : Template} {callee : Signature} {viaTypes : List Feature}

theorem resolveViaType_chars_iff (h : t.Separates .viaType)
    (hcarried : ∀ name, ⟨viaTypeWord ++ name⟩ ∈ viaTypes → '%' ∉ name.toList) {cs : List Char} :
    resolveViaType viaTypes t.chars = some cs ↔
      ∃ name : Literal,
        (.viaType ∈ t.words → viaTypes = [⟨viaTypeWord ++ String.ofList name.chars⟩]) ∧
        cs = (t.absorb .viaType name).chars := by
  unfold resolveViaType
  rw [toList_viaTypePlaceholder]
  by_cases hvia : .viaType ∈ t.words
  · rw [if_pos ((occursIn_chars_iff h).2 hvia)]
    constructor
    · intro hfound
      split at hfound
      · rename_i f
        obtain ⟨name, hname, rfl⟩ := Option.map_eq_some_iff.1 hfound
        rw [viaTypeName?_eq_some_iff] at hname
        subst hname
        let v : Literal := ⟨name.toList, hcarried name List.mem_cons_self⟩
        exact ⟨v, fun _ => by rw [String.ofList_toList], replaceAll_chars h v⟩
      · cases hfound
    · rintro ⟨name, hobserved, rfl⟩
      rw [hobserved hvia]
      simp only
      rw [viaTypeName?_eq_some_iff.2 rfl, Option.map_some, String.toList_ofList, replaceAll_chars h]
  · rw [if_neg (mt (occursIn_chars_iff h).1 hvia)]
    constructor
    · rintro ⟨⟩
      exact ⟨⟨[], List.not_mem_nil⟩, fun hmem => absurd hmem hvia, by rw [absorb_of_not_mem hvia]⟩
    · rintro ⟨name, -, rfl⟩
      rw [absorb_of_not_mem hvia]

/-- The template after both replacements. -/
def resolved (t : Template) (signature name : Literal) : Template :=
  (t.absorb .leaf signature).absorb .viaType name

theorem words_resolved_eq_nil_iff (signature name : Literal) :
    (t.resolved signature name).words = [] ↔ ∀ w ∈ t.words, w = .leaf ∨ w = .viaType := by
  simp only [resolved, words_absorb, List.filter_filter, List.filter_eq_nil_iff, Bool.and_eq_true,
    decide_eq_true_eq]
  refine forall₂_congr fun w _ => ?_
  rw [not_and_or, not_not, not_not, or_comm]

theorem chars_resolved (hknown : ∀ w ∈ t.words, w = .leaf ∨ w = .viaType)
    (signature name : Literal) :
    (t.resolved signature name).chars =
      t.fill fun w => if w = .leaf then signature.chars else name.chars := by
  rw [resolved, chars, fill_absorb, fill_absorb]
  refine fill_congr fun w hw => ?_
  rcases hknown w hw with rfl | rfl
  · rw [Function.update_self, if_pos rfl]
  · have hne : Word.viaType ≠ .leaf := by decide
    rw [Function.update_of_ne hne, Function.update_self, if_neg hne]

section

variable (hleaf : t.Separates .leaf) (hviaType : t.Separates .viaType)
  (hcallee : '%' ∉ callee.text.toList) (hsignature : ∃ c ∈ callee.text.toList, isWordChar c = false)
  (hcarried : ∀ name, ⟨viaTypeWord ++ name⟩ ∈ viaTypes → '%' ∉ name.toList)
include hleaf hviaType hcallee hsignature hcarried

theorem instantiate_eq_some_iff {n : CanonicalName} :
    (template (String.ofList t.chars)).instantiate callee viaTypes = some n ↔
      (∀ w ∈ t.words, w = .leaf ∨ w = .viaType) ∧
      ∃ name : Literal,
        (.viaType ∈ t.words → viaTypes = [⟨viaTypeWord ++ String.ofList name.chars⟩]) ∧
        n = .instantiated (String.ofList
          (t.fill fun w => if w = .leaf then callee.text.toList else name.chars)) := by
  let signature : Literal := ⟨callee.text.toList, hcallee⟩
  have hwords : .viaType ∈ (t.absorb .leaf signature).words ↔ .viaType ∈ t.words := by
    rw [words_absorb, List.mem_filter]
    exact and_iff_left (by decide)
  -- The signature cannot become part of a word between two percent signs.
  have hapart : ¬ signature.chars ⊆ Word.viaType.chars := by
    obtain ⟨c, hc, hno⟩ := hsignature
    exact fun hsub => absurd (Word.viaType.isWordChar c (hsub hc)) (by rw [hno]; decide)
  have hnamed : replaceAll leafPlaceholder.toList callee.text.toList
      (String.ofList t.chars).toList = (t.absorb .leaf signature).chars := by
    rw [String.toList_ofList, toList_leafPlaceholder]
    exact replaceAll_chars hleaf signature
  have hresolves (cs : List Char) : resolveViaType viaTypes (t.absorb .leaf signature).chars =
      some cs ↔ ∃ name : Literal,
        (.viaType ∈ t.words → viaTypes = [⟨viaTypeWord ++ String.ofList name.chars⟩]) ∧
        cs = (t.resolved signature name).chars := by
    rw [resolveViaType_chars_iff (hviaType.absorb .leaf hapart) hcarried, hwords]
    rfl
  constructor
  · intro h
    obtain ⟨cs, hcs, hresult⟩ := Option.bind_eq_some_iff.1 h
    rw [hnamed, hresolves] at hcs
    obtain ⟨name, hobserved, rfl⟩ := hcs
    split at hresult
    · cases hresult
    · rename_i hnone
      cases hresult
      rw [hasPlaceholder_chars_iff, not_not, words_resolved_eq_nil_iff] at hnone
      exact ⟨hnone, name, hobserved, by rw [chars_resolved hnone]⟩
  · rintro ⟨hknown, name, hobserved, rfl⟩
    refine Option.bind_eq_some_iff.2 ⟨(t.resolved signature name).chars, ?_, ?_⟩
    · rw [hnamed, hresolves]
      exact ⟨name, hobserved, rfl⟩
    · have hnone : ¬ hasPlaceholder (t.resolved signature name).chars := by
        rw [hasPlaceholder_chars_iff, not_not, words_resolved_eq_nil_iff]
        exact hknown
      rw [if_neg hnone, chars_resolved hknown]

/-- A template is resolved by putting the signature and the observed type into its placeholders,
all at once. It has a result just if it has no other placeholders and one type was observed, should
it ask for one. The result is not resolved again. -/
theorem instantiate_substitutes :
    (((template (String.ofList t.chars)).instantiate callee viaTypes).isSome ↔
      (∀ w ∈ t.words, w = .leaf ∨ w = .viaType) ∧
      (.viaType ∈ t.words → ∃ name, viaTypes = [⟨viaTypeWord ++ name⟩])) ∧
    ∀ n, (template (String.ofList t.chars)).instantiate callee viaTypes = some n →
      (∃ name : String,
        (.viaType ∈ t.words → viaTypes = [⟨viaTypeWord ++ name⟩]) ∧
        n = .instantiated (String.ofList
          (t.fill fun w => if w = .leaf then callee.text.toList else name.toList))) ∧
      ∀ callee' viaTypes', n.instantiate callee' viaTypes' = none := by
  have hresult (n : CanonicalName) :=
    instantiate_eq_some_iff hleaf hviaType hcallee hsignature hcarried (n := n)
  refine ⟨?_, fun n hn => ?_⟩
  · rw [Option.isSome_iff_exists]
    constructor
    · rintro ⟨n, hn⟩
      obtain ⟨hknown, name, hobserved, -⟩ := (hresult n).1 hn
      exact ⟨hknown, fun hvia => ⟨String.ofList name.chars, hobserved hvia⟩⟩
    · rintro ⟨hknown, hobserved⟩
      by_cases hvia : .viaType ∈ t.words
      · obtain ⟨name, rfl⟩ := hobserved hvia
        let v : Literal := ⟨name.toList, hcarried name List.mem_cons_self⟩
        exact ⟨_, (hresult _).2 ⟨hknown, v, fun _ => by rw [String.ofList_toList], rfl⟩⟩
      · let v : Literal := ⟨[], List.not_mem_nil⟩
        exact ⟨_, (hresult _).2 ⟨hknown, v, fun hmem => absurd hmem hvia, rfl⟩⟩
  · obtain ⟨-, name, hobserved, rfl⟩ := (hresult n).1 hn
    exact ⟨⟨String.ofList name.chars, hobserved, by rw [String.toList_ofList]⟩, fun _ _ => rfl⟩

end

/-- Two placeholders with nothing between them. -/
def adjacent : Template :=
  cons ⟨"see ".toList, by decide⟩ .leaf (cons ⟨[], by decide⟩ .viaType (last ⟨['!'], by decide⟩))

theorem instantiate_substitutes_of_adjacent :
    (template "see %programmatic_leaf_name%%via_type_of%!").instantiate
      ⟨"LA;.m:()V"⟩ [⟨"via-type:LB;"⟩] = some (.instantiated "see LA;.m:()VLB;!") := by
  have hname {name : String} (h : (⟨viaTypeWord ++ name⟩ : Feature) ∈ [⟨viaTypeWord ++ "LB;"⟩]) :
      name = "LB;" :=
    (String.append_right_inj viaTypeWord).1 (congrArg Name.text (List.mem_singleton.1 h))
  have hseparates (w : Word) : adjacent.Separates w := by
    intro l hl hchars
    rw [List.mem_singleton.1 hl] at hchars
    exact w.ne_nil hchars.symm
  have hsignature : ∃ c ∈ "LA;.m:()V".toList, isWordChar c = false := ⟨'L', by decide, by decide⟩
  have hcarried : ∀ name, (⟨viaTypeWord ++ name⟩ : Feature) ∈ [⟨viaTypeWord ++ "LB;"⟩] →
      '%' ∉ name.toList := by
    intro name hmem
    rw [hname hmem]
    decide
  obtain ⟨hsome, hvalue⟩ := @instantiate_substitutes adjacent ⟨"LA;.m:()V"⟩ _
    (hseparates .leaf) (hseparates .viaType) (by decide) hsignature hcarried
  obtain ⟨n, hn⟩ := Option.isSome_iff_exists.1 (hsome.2 ⟨by decide, fun _ => ⟨"LB;", rfl⟩⟩)
  obtain ⟨⟨name, hobserved, rfl⟩, -⟩ := hvalue n hn
  have hmem : (⟨viaTypeWord ++ name⟩ : Feature) ∈ [⟨viaTypeWord ++ "LB;"⟩] :=
    hobserved (by decide) ▸ List.mem_cons_self
  rw [hname hmem] at hn
  exact hn

end Template
end CanonicalName
end TaintFlow
