import TestTree.Proofs.Call.Spelling
import TestTree.Proofs.Step.Acceptance
import TestTree.Proofs.Text.Settled

namespace TestTree.Step

open Text CallName

/-- Closed strings, and text around them that has no quotes and starts no comment. -/
inductive Uncommented : Text → Prop
  | plain {text : Text} (unquoted : ∀ c ∈ text, isQuote c = false) (slashless : ¬ ['/', '/'] <:+: text) :
      Uncommented text
  | string {lead body rest : Text} {quote : Char} (unquoted : ∀ c ∈ lead, isQuote c = false)
      (slashless : ¬ ['/', '/'] <:+: lead) (quotes : isQuote quote = true) (quoted : QuotedBody quote body)
      (behind : Uncommented rest) : Uncommented (lead ++ quote :: (body ++ quote :: rest))

section Grammar

variable {text lead body rest value : Text} {quote : Char}

theorem foreign_of_isQuote (quotes : isQuote quote = true) : quote ∉ ['/', '/'] := by
  rintro listed
  obtain rfl : quote = '/' := by simpa using listed
  exact absurd quotes (by decide)

/-- A closed string, and text in front of it, neither start a comment nor leave a string open. -/
theorem settled_append_string (unquoted : ∀ c ∈ lead, isQuote c = false) (slashless : ¬ ['/', '/'] <:+: lead)
    (quotes : isQuote quote = true) (taken : takeQuotedBody quote text = some (value, rest)) :
    Settled (lead ++ quote :: text) ↔ Settled rest := by
  obtain ⟨read, -, split⟩ := splitOutside_string quotes ['/', '/'] taken
  have search : splitOutside ['/', '/'] .outside (lead ++ quote :: text) = none ↔
      splitOutside ['/', '/'] .outside rest = none := by
    rw [splitOutside_plain unquoted slashless (foreign_of_isQuote quotes), split, Option.map_eq_none_iff,
      Option.map_eq_none_iff]
  have scan : (lead ++ quote :: text).foldl QuoteState.next .outside = rest.foldl QuoteState.next .outside := by
    rw [List.foldl_append, foldl_next_plain unquoted, foldl_next_string quotes taken]
  constructor
  · rintro ⟨uncommented, closed⟩
    exact ⟨search.mp uncommented, scan.symm.trans closed⟩
  · rintro ⟨uncommented, closed⟩
    exact ⟨search.mpr uncommented, scan.trans closed⟩

theorem quotedBody_of_taken (taken : takeQuotedBody quote text = some (value, rest)) :
    ∃ body, QuotedBody quote body ∧ text = body ++ quote :: rest := by
  fun_induction takeQuotedBody quote text generalizing value with
  | case1 | case2 => cases taken
  | case3 c tail ih =>
      obtain ⟨⟨inner, behind⟩, found, same⟩ := Option.map_eq_some_iff.mp taken
      cases same
      obtain ⟨body, quoted, rfl⟩ := ih found
      exact ⟨'\\' :: c :: body, .escaped quoted, rfl⟩
  | case4 tail ends escapes =>
      cases taken
      exact ⟨[], .nil, rfl⟩
  | case5 c tail ends escapes different ih =>
      obtain ⟨⟨inner, behind⟩, found, same⟩ := Option.map_eq_some_iff.mp taken
      cases same
      obtain ⟨body, quoted, rfl⟩ := ih found
      exact ⟨c :: body, .plain (ne_backslash ends escapes) different quoted, rfl⟩

/-- Where no quote stands a comment is found if there is one. -/
theorem slashless_of_settled (unquoted : ∀ c ∈ text, isQuote c = false)
    (uncommented : splitOutside ['/', '/'] .outside text = none) : ¬ ['/', '/'] <:+: text := by
  rintro ⟨before, behind, rfl⟩
  rw [List.append_assoc] at uncommented
  have plain : ∀ c ∈ before, isQuote c = false := fun c listed => unquoted c (by simp [listed])
  induction before with
  | nil => simp [splitOutside, isQuote, after?] at uncommented
  | cons c before ih =>
      rw [List.cons_append, splitOutside] at uncommented
      split at uncommented
      · cases uncommented
      · have outside : QuoteState.next .outside c = .outside := by simp [QuoteState.next, plain c (.head _)]
        rw [outside] at uncommented
        exact ih (fun d listed => unquoted d (.tail _ listed)) (Option.map_eq_none_iff.mp uncommented)
          fun d listed => plain d (.tail _ listed)

theorem Uncommented.settled (uncommented : Uncommented text) : Settled text := by
  induction uncommented with
  | plain unquoted slashless => exact settled_of_plain unquoted slashless
  | string unquoted slashless quotes quoted behind ih =>
      obtain ⟨value, taken⟩ := takeQuotedBody_append quotes quoted _
      exact (settled_append_string unquoted slashless quotes taken).mpr ih

theorem uncommented_of_settled (settled : Settled text) : Uncommented text := by
  induction size : text.length using Nat.strong_induction_on generalizing text with
  | _ size ih =>
      have split : text.takeWhile (!isQuote ·) ++ text.dropWhile (!isQuote ·) = text := List.takeWhile_append_dropWhile
      have unquoted : ∀ c ∈ text.takeWhile (!isQuote ·), isQuote c = false := fun c listed => by
        simpa using List.mem_takeWhile_imp listed
      have uncommented := settled.uncommented
      rw [← split] at uncommented
      have slashless := slashless_of_settled unquoted (splitOutside_of_append uncommented)
      cases behind : text.dropWhile (!isQuote ·) with
      | nil =>
          rw [behind, List.append_nil] at split
          rw [← split]
          exact .plain unquoted slashless
      | cons quote tail =>
          have quotes : isQuote quote = true := by
            have stops := List.head_dropWhile_not (!isQuote ·) (l := text) (by simp [behind])
            simpa [behind] using stops
          rw [behind] at split
          rw [← split] at settled size ⊢
          cases taken : takeQuotedBody quote tail with
          | none =>
              have closed := settled.closed
              rw [List.foldl_append, foldl_next_plain unquoted, List.foldl_cons, QuoteState.next, if_pos quotes]
                at closed
              exact absurd closed (foldl_next_unclosed taken)
          | some read =>
              obtain ⟨value, rest⟩ := read
              have later := (settled_append_string unquoted slashless quotes taken).mp settled
              have shorter := length_of_takeQuotedBody taken
              obtain ⟨body, quoted, rfl⟩ := quotedBody_of_taken taken
              refine .string unquoted slashless quotes quoted (ih rest.length ?_ later rfl)
              simp only [List.length_append, List.length_cons] at size shorter
              omega

theorem settled_iff : Settled text ↔ Uncommented text := ⟨uncommented_of_settled, Uncommented.settled⟩

end Grammar

/-- A line with a comment behind it. -/
def commented (line comment : Text) : Text := line ++ [' ', '/', '/', ' '] ++ comment

section Lines

variable {line : Text}

theorem splitComment_settled (settled : Settled line) : splitComment (trim line) = (trim line, none) := by
  obtain ⟨gap, same⟩ := List.dropWhile_suffix isBlank (l := (trimStart line).reverse)
  have whole : trim line ++ gap.reverse = trimStart line := by
    rw [trim, trimEnd, ← List.reverse_append, same, List.reverse_reverse]
  have uncommented := settled.trimStart.uncommented
  rw [← whole] at uncommented
  rw [splitComment, splitOutside_of_append uncommented]

/-- A comment is found where it starts, although white space in front of it may have been taken off. -/
theorem splitOutside_comment (settled : Settled line) (comment : Text) :
    splitOutside ['/', '/'] .outside (trimStart (line ++ [' ']) ++ '/' :: '/' :: comment) =
      some (trimStart (line ++ [' ']), '/' :: '/' :: comment) := by
  by_cases empty : trimStart line = []
  · have blank : trimStart (line ++ [' ']) = [] := by
      rw [trimStart] at empty
      rw [trimStart, List.dropWhile_append, empty]
      rfl
    rw [blank]
    simp [splitOutside, isQuote, after?]
  · rw [trimStart_append empty, List.append_assoc, List.singleton_append,
      splitOutside_append settled.trimStart.uncommented (by decide), settled.trimStart.closed]
    simp [splitOutside, QuoteState.next, isQuote, after?]

theorem splitComment_commented (settled : Settled line) (comment : Text) :
    splitComment (trim (commented line comment)) = (trim line, some (trim comment)) := by
  have parts : commented line comment = (line ++ [' ']) ++ '/' :: '/' :: ' ' :: comment := by simp [commented]
  have whole : trim (commented line comment) =
      trimStart (line ++ [' ']) ++ '/' :: '/' :: trimEnd (' ' :: comment) := by
    rw [parts, trim, trimStart_append_cons (by decide), trimEnd_append_cons (by decide), trimEnd_cons (by decide)]
  have front : trimEnd (trimStart (line ++ [' '])) = trim line := trim_append_blank (by decide) line
  have said : trim (trimEnd (' ' :: comment)) = trim comment := by
    rw [trim_trimEnd, trim_cons_blank (by decide)]
  rw [whole, splitComment, splitOutside_comment settled]
  dsimp only
  rw [front, List.drop_succ_cons, List.drop_succ_cons, List.drop_zero, said]

/-- A comment changes nothing in a line but the comment: the step, what it opens and its error are those of the
line without it. -/
theorem parseLine_commented (uncommented : Uncommented line) (comment : Text) (filename : Option Text)
    (number : Nat) :
    parseLine (commented line comment) filename number =
      (parseLine line filename number).map fun parsed =>
        { parsed with
          step := { parsed.step with line := commented line comment, comment := some (trim comment) } } := by
  have settled := uncommented.settled
  rw [parseLine, parseLine, splitComment_settled settled, splitComment_commented settled]
  dsimp only
  cases parseContent (trim line) <;> rfl

def announcement : Text := "  Say 'a // \\'b' \"it's\" ~ \x7b"

/-- Slashes and an escaped quote in a string are no comment, and a comment may hold what looks like code. -/
theorem parseLine_commented_announcement :
    Uncommented announcement ∧
      (parseLine announcement none 1).toOption.map (fun parsed =>
          (parsed.step.text, parsed.step.identifiers.isDebug, parsed.opensCode, parsed.step.comment)) =
        some ("Say 'a // \\'b' \"it's\"".toList, true, true, none) ∧
      parseLine (commented announcement "don't // \x7b ") none 1 =
        (parseLine announcement none 1).map fun parsed =>
          { parsed with
            step := { parsed.step with
              line := commented announcement "don't // \x7b ", comment := some (trim "don't // \x7b ") } } := by
  have uncommented : Uncommented announcement := settled_iff.mp ⟨by decide +kernel, by decide +kernel⟩
  exact ⟨uncommented, by decide +kernel, parseLine_commented uncommented "don't // \x7b " none 1⟩

end Lines

end TestTree.Step
