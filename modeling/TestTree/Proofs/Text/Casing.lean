import Mathlib
import TestTree.Proofs.Text.Words
import TestTree.Text.LowerCase

namespace TestTree.Text

section Spacing

variable {isBreak : Char → Bool} {c : Char} {text word first : Text} {texts others : List Text}

theorem words_cons_blank (blank : isBlank c = true) (text : Text) : words (c :: text) = words text := by
  rw [← List.nil_append (c :: text), words_append blank]
  rfl

theorem words_append_blanks (blank : ∀ c ∈ word, isBlank c = true) (text : Text) :
    words (word ++ text) = words text := by
  induction word with
  | nil => rfl
  | cons c rest ih =>
      rw [List.cons_append, words_cons_blank (blank c (.head _)),
        ih fun d listed => blank d (.tail _ listed)]

/-- Characters in front of a text that are no breaks belong to its first piece. -/
theorem pieces_append_filled (filled : ∀ c ∈ word, isBreak c = false)
    (cut : pieces isBreak text = first :: others) :
    pieces isBreak (word ++ text) = (word ++ first) :: others := by
  induction word with
  | nil => exact cut
  | cons c rest ih =>
      have goes : isBreak c = false := filled c (.head _)
      rw [List.cons_append, pieces, ih fun d listed => filled d (.tail _ listed)]
      simp [goes]

theorem words_filled (some : word ≠ []) (filled : ∀ c ∈ word, isBlank c = false) : words word = [word] := by
  have cut : pieces isBlank (word ++ []) = [word ++ []] := pieces_append_filled filled rfl
  rw [List.append_nil] at cut
  rw [words, cut, List.filter_cons_of_pos (by simpa using some)]
  rfl

/-- A word ends at white space. -/
theorem words_filled_append (some : word ≠ []) (filled : ∀ c ∈ word, isBlank c = false)
    (blank : isBlank c = true) (text : Text) : words (word ++ c :: text) = word :: words text := by
  rw [words_append blank, words_filled some filled]
  rfl

theorem words_trimStart (text : Text) : words (trimStart text) = words text := by
  induction text with
  | nil => rfl
  | cons c rest ih =>
      cases blank : isBlank c with
      | true => rwa [trimStart, List.dropWhile_cons_of_pos blank, words_cons_blank blank]
      | false => rw [trimStart_cons blank]

theorem getLast?_of_tail {α : Type} {list : List α} {last : α} (isLast : list.tail.getLast? = some last) :
    list.getLast? = some last := by
  cases list with
  | nil => exact isLast
  | cons first rest =>
      cases rest with
      | nil => cases isLast
      | cons second rest => rwa [List.getLast?_cons_cons]

/-- A character put in front of a text changes the first of its words only. -/
theorem getLast?_words_cons (filled : isBlank c = false) (isLast : (words text).tail.getLast? = some word) :
    (words (c :: text)).getLast? = some word := by
  obtain ⟨first, others, cut⟩ := List.exists_cons_of_ne_nil (pieces_ne_nil isBlank text)
  have goes : ∀ d ∈ [c], isBlank d = false := by simpa using filled
  have whole : pieces isBlank (c :: text) = (c :: first) :: others := pieces_append_filled goes cut
  rw [words, cut] at isLast
  have behind : (others.filter (!·.isEmpty)).getLast? = some word := by
    cases first with
    | nil => exact getLast?_of_tail isLast
    | cons => exact isLast
  rw [words, whole, List.filter_cons_of_pos (by simp), List.getLast?_cons, behind]
  rfl

theorem not_break_of_mem_pieces (listed : word ∈ pieces isBreak text) : ∀ c ∈ word, isBreak c = false := by
  induction text generalizing word with
  | nil =>
      obtain rfl := List.mem_singleton.mp listed
      exact fun c within => by cases within
  | cons c rest ih =>
      obtain ⟨first, others, cut⟩ := List.exists_cons_of_ne_nil (pieces_ne_nil isBreak rest)
      rw [pieces, cut] at listed
      rw [cut] at ih
      split at listed
      · rcases List.mem_cons.mp listed with rfl | behind
        · exact fun c within => by cases within
        · exact ih behind
      · next goes =>
        rcases List.mem_cons.mp listed with rfl | behind
        · exact List.forall_mem_cons.mpr ⟨by simpa using goes, ih (.head _)⟩
        · exact ih (.tail _ behind)

theorem filled_of_mem_words (listed : word ∈ words text) : word ≠ [] ∧ ∀ c ∈ word, isBlank c = false := by
  obtain ⟨piece, some⟩ := List.mem_filter.mp listed
  exact ⟨by simpa using some, not_break_of_mem_pieces piece⟩

/-- The first piece starts where the text does, so that a character can be put in front of both. -/
theorem infix_of_pieces (cut : pieces isBreak text = first :: others) :
    first <+: text ∧ ∀ other ∈ others, other <:+: text := by
  induction text generalizing first others with
  | nil =>
      cases cut
      exact ⟨List.prefix_rfl, fun other within => by cases within⟩
  | cons c rest ih =>
      obtain ⟨next, behind, split⟩ := List.exists_cons_of_ne_nil (pieces_ne_nil isBreak rest)
      obtain ⟨starts, inside⟩ := ih split
      have within : ∀ other ∈ behind, other <:+: c :: rest := fun other listed =>
        (inside other listed).trans (List.suffix_cons c rest).isInfix
      rw [pieces, split] at cut
      split at cut
      · cases cut
        exact ⟨List.nil_prefix, List.forall_mem_cons.mpr
          ⟨starts.isInfix.trans (List.suffix_cons c rest).isInfix, within⟩⟩
      · cases cut
        exact ⟨(List.prefix_cons_inj c).mpr starts, within⟩

theorem infix_of_mem_pieces (listed : word ∈ pieces isBreak text) : word <:+: text := by
  obtain ⟨first, others, cut⟩ := List.exists_cons_of_ne_nil (pieces_ne_nil isBreak text)
  obtain ⟨starts, inside⟩ := infix_of_pieces cut
  rcases List.mem_cons.mp (cut ▸ listed) with rfl | behind
  · exact starts.isInfix
  · exact inside word behind

theorem words_join (filled : ∀ word ∈ texts, word ≠ [] ∧ ∀ c ∈ word, isBlank c = false) :
    words (join [' '] texts) = texts := by
  induction texts with
  | nil => rfl
  | cons word rest ih =>
      obtain ⟨⟨some, full⟩, behind⟩ := List.forall_mem_cons.mp filled
      cases rest with
      | nil => exact words_filled some full
      | cons next others =>
          rw [join, List.append_assoc, List.singleton_append, words_filled_append some full (by decide),
            ih behind]

/-- Collapsing the spacing of a text keeps its words. -/
theorem words_collapse (text : Text) : words (collapse text) = words text :=
  words_join fun _ => filled_of_mem_words

end Spacing

section Casing

variable {c d : Char}

/-- White space and braces. -/
def uncasedCodes : List Nat := 0x7B :: 0x7D :: blankCodes

def isUncased (c : Char) : Bool := uncasedCodes.contains c.toNat

theorem isUncased_of_isBlank (blank : isBlank c = true) : isUncased c = true := by
  simp only [isBlank, List.contains_iff_mem] at blank
  simp [isUncased, uncasedCodes, blank]

/-- No letter of a run is white space or a brace, in upper or in lower case. -/
theorem caseRuns_apart : ∀ run ∈ caseRuns, ∀ code ∈ uncasedCodes, run.contains code = false ∧
    ((code : Int) < run.first + run.shift ∨ run.last + run.shift < code) := by
  decide +kernel

theorem uncased_apart : ∀ code ∈ uncasedCodes, (code < 65 ∨ 90 < code) ∧ (code < 97 ∨ 122 < code) ∧
    code ≠ 0x130 ∧ code ≠ 0x307 ∧ code ≠ 0 := by
  decide

theorem toLower_cases (c : Char) : c.toLower = c ∨
    (65 ≤ c.toNat ∧ c.toNat ≤ 90) ∧ 97 ≤ c.toLower.toNat ∧ c.toLower.toNat ≤ 122 := by
  by_cases upper : c.isUpper
  · have large : 65 ≤ c.toNat ∧ c.toNat ≤ 90 := by
      simpa [Char.isUpper, UInt32.le_iff_toNat_le] using upper
    have valid : (c.toNat + 32).isValidChar := .inl (by omega)
    rw [Char.toLower_eq_of_isUpper upper, Char.toNat_ofNat, if_pos valid]
    omega
  · exact .inl (Char.toLower_eq_of_not_isUpper upper)

theorem toNat_ofNat_cases (code : Nat) :
    (Char.ofNat code).toNat = code ∨ (Char.ofNat code).toNat = 0 := by
  rw [Char.toNat_ofNat]
  exact ite_eq_or_eq _ _ _

theorem mem_uncasedCodes : isUncased c = true ↔ c.toNat ∈ uncasedCodes := by
  rw [isUncased, List.contains_iff_mem]

theorem lowerChar_of_isUncased (uncased : isUncased c = true) : lowerChar c = [c] := by
  have listed := mem_uncasedCodes.mp uncased
  obtain ⟨small, -, dotted, -⟩ := uncased_apart _ listed
  rw [lowerChar, if_neg dotted]
  split
  · rcases toLower_cases c with same | ⟨large, -⟩
    · rw [same]
    · omega
  · have missing : caseRuns.find? (·.contains c.toNat) = none :=
      List.find?_eq_none.mpr fun run among => by simp [(caseRuns_apart run among _ listed).1]
    rw [missing]

theorem lowerChar_ne_nil (c : Char) : lowerChar c ≠ [] := by
  rw [lowerChar]
  split
  · exact List.cons_ne_nil _ _
  · split
    · exact List.cons_ne_nil _ _
    · split <;> exact List.cons_ne_nil _ _

/-- No letter becomes white space or a brace. -/
theorem eq_of_mem_lowerChar (listed : d ∈ lowerChar c) (uncased : isUncased d = true) : d = c := by
  have code := mem_uncasedCodes.mp uncased
  obtain ⟨-, small, -, mark, null⟩ := uncased_apart _ code
  rw [lowerChar] at listed
  split at listed
  · obtain rfl := List.mem_singleton.mp listed
    rcases toLower_cases c with same | ⟨-, raised⟩
    · exact same
    · omega
  · split at listed
    · simp only [List.mem_cons, List.not_mem_nil, or_false] at listed
      rcases listed with rfl | rfl
      · exact absurd small (by decide)
      · exact absurd rfl mark
    · split at listed
      · next run found =>
        obtain rfl := List.mem_singleton.mp listed
        have among := List.mem_of_find?_eq_some found
        have within := List.find?_some found
        simp only [CaseRun.contains, Bool.and_eq_true, decide_eq_true_eq] at within
        have apart := (caseRuns_apart run among _ code).2
        rcases toNat_ofNat_cases (c.toNat + run.shift).toNat with same | zero
        · rw [same] at apart
          omega
        · exact absurd zero null
      · exact List.mem_singleton.mp listed

theorem lower_cons (c : Char) (text : Text) : lower (c :: text) = lowerChar c ++ lower text :=
  List.flatMap_cons

theorem filled_lower {word : Text} (filled : ∀ c ∈ word, isBlank c = false) :
    ∀ c ∈ lower word, isBlank c = false := by
  intro d listed
  obtain ⟨c, within, raised⟩ := List.mem_flatMap.mp listed
  rw [Bool.eq_false_iff]
  intro blank
  obtain rfl := eq_of_mem_lowerChar raised (isUncased_of_isBlank blank)
  exact Bool.false_ne_true ((filled d within).symm.trans blank)

theorem lower_blanks {text : Text} (blank : ∀ c ∈ text, isBlank c = true) : lower text = text := by
  induction text with
  | nil => rfl
  | cons c rest ih =>
      have same : lowerChar c = [c] := lowerChar_of_isUncased (isUncased_of_isBlank (blank c (.head _)))
      rw [lower_cons, same, ih fun d listed => blank d (.tail _ listed)]
      rfl

theorem lower_eq_nil {text : Text} (empty : lower text = []) : text = [] := by
  cases text with
  | nil => rfl
  | cons c rest =>
      rw [lower_cons, List.append_eq_nil_iff] at empty
      exact absurd empty.1 (lowerChar_ne_nil c)

/-- Lower-casing a text lower-cases its words. -/
theorem words_lower (text : Text) : words (lower text) = (words text).map lower := by
  have pieces_lower : pieces isBlank (lower text) = (pieces isBlank text).map lower := by
    induction text with
    | nil => rfl
    | cons c rest ih =>
        obtain ⟨first, others, cut⟩ := List.exists_cons_of_ne_nil (pieces_ne_nil isBlank rest)
        rw [cut, List.map_cons] at ih
        rw [lower_cons]
        cases blank : isBlank c with
        | true =>
            rw [lowerChar_of_isUncased (isUncased_of_isBlank blank), List.singleton_append, pieces,
              pieces, ih, cut, if_pos blank, if_pos blank]
            rfl
        | false =>
            have goes : ∀ d ∈ [c], isBlank d = false := by simpa using blank
            have filled : ∀ d ∈ lowerChar c, isBlank d = false := by simpa [lower] using filled_lower goes
            have whole : pieces isBlank (c :: rest) = (c :: first) :: others := pieces_append_filled goes cut
            rw [pieces_append_filled filled ih, whole, List.map_cons, lower_cons]
  have kept (piece : Text) : (!(lower piece).isEmpty) = !piece.isEmpty := by
    cases piece with
    | nil => rfl
    | cons c rest => simp [lower, lowerChar_ne_nil c]
  rw [words, pieces_lower, List.filter_map, words]
  simp only [Function.comp_def, kept]

end Casing

end TestTree.Text
