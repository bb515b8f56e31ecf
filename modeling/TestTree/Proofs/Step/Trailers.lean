import TestTree.Proofs.Step.Acceptance
import TestTree.Proofs.Text.Casing
import TestTree.Proofs.Text.Settled

namespace TestTree

open Text

/-- An identifier as it is written. -/
def Identifier.token : Identifier → Text
  | toDo => ['-', 'T']
  | manual => ['-', 'M']
  | textual => ['-']
  | debug => ['~']
  | only => ['$']
  | nonParallel => ['+']
  | sequential => ['.', '.']
  | expectedFail none => ['#']
  | expectedFail (some note) => '#' :: note

def Identifier.note? : Identifier → Option Text
  | expectedFail note => note
  | _ => none

namespace Step

/-- A word without quotes, braces and comments. -/
structure PlainWord (word : Text) : Prop where
  filled : word ≠ []
  plain : ∀ c ∈ word, isBlank c = false ∧ isQuote c = false ∧ Reference.isBrace c = false
  uncommented : ¬ ['/', '/'] <:+: word

section Tokens

variable {identifier : Identifier}

theorem plainWord_token (noted : ∀ note ∈ identifier.note?, PlainWord note) : PlainWord identifier.token := by
  cases identifier with
  | expectedFail note =>
      cases note with
      | none => exact ⟨by simp [Identifier.token], by simp [Identifier.token]; decide, by decide⟩
      | some note =>
          obtain ⟨filled, plain, uncommented⟩ := noted note rfl
          refine ⟨List.cons_ne_nil _ _, List.forall_mem_cons.mpr ⟨by decide, plain⟩, fun inside => ?_⟩
          rcases List.infix_cons_iff.mp inside with ⟨behind, starts⟩ | later
          · cases starts
          · exact uncommented later
  | toDo | manual | textual | debug | only | nonParallel | sequential =>
      exact ⟨by simp [Identifier.token], by simp [Identifier.token]; decide, by decide⟩

theorem ofToken?_token (noted : ∀ note ∈ identifier.note?, PlainWord note) :
    Identifier.ofToken? identifier.token = some identifier := by
  cases identifier with
  | expectedFail note =>
      cases note with
      | none => rfl
      | some note =>
          obtain ⟨first, rest, rfl⟩ := List.exists_cons_of_ne_nil (noted note rfl).filled
          rfl
  | toDo | manual | textual | debug | only | nonParallel | sequential => rfl

end Tokens

/-- An identifier with the white space in front of it. -/
structure Trailer where
  gap : Text
  identifier : Identifier
  apart : gap ≠ []
  blank : isAllBlank gap = true
  noted : ∀ note ∈ identifier.note?, PlainWord note

def Trailer.written (trailer : Trailer) : Text := trailer.gap ++ trailer.identifier.token

/-- Identifiers as they stand behind a step. -/
def row (trailers : List Trailer) : Text := trailers.flatMap Trailer.written

section Rows

variable {lead text : Text} {trailers : List Trailer} {trailer : Trailer}

theorem Trailer.plain (trailer : Trailer) : PlainWord trailer.identifier.token := plainWord_token trailer.noted

theorem Trailer.gap_cons (trailer : Trailer) :
    ∃ c gap, trailer.gap = c :: gap ∧ isBlank c = true ∧ ∀ d ∈ gap, isBlank d = true := by
  obtain ⟨c, gap, same⟩ := List.exists_cons_of_ne_nil trailer.apart
  have blank := isBlank_of_isAllBlank trailer.blank
  rw [same] at blank
  exact ⟨c, gap, same, List.forall_mem_cons.mp blank⟩

theorem Trailer.settled (trailer : Trailer) (settled : Settled text) : Settled (text ++ trailer.written) := by
  obtain ⟨filled, plain, uncommented⟩ := trailer.plain
  have token : Settled trailer.identifier.token :=
    settled_of_plain (fun c listed => (plain c listed).2.1) uncommented
  obtain ⟨c, gap, same, blank, blanks⟩ := trailer.gap_cons
  rw [Trailer.written, same, List.cons_append]
  exact settled.append blank (token.behind blanks)

theorem row_cons (trailer : Trailer) (trailers : List Trailer) :
    row (trailer :: trailers) = trailer.written ++ row trailers :=
  List.flatMap_cons

theorem settled_row (settled : Settled text) (trailers : List Trailer) : Settled (text ++ row trailers) := by
  induction trailers generalizing text with
  | nil => rwa [row, List.flatMap_nil, List.append_nil]
  | cons trailer trailers ih =>
      rw [row_cons, ← List.append_assoc]
      exact ih (trailer.settled settled)

/-- The last character of a line with identifiers is that of the last of them. -/
theorem row_ends (trailed : trailers ≠ []) :
    ∃ front last, row trailers = front ++ [last] ∧ isBlank last = false ∧ Reference.isBrace last = false := by
  obtain ⟨others, trailer, rfl⟩ := List.eq_nil_or_concat trailers |>.resolve_left trailed
  obtain ⟨filled, plain, -⟩ := trailer.plain
  obtain ⟨front, last, same⟩ := List.eq_nil_or_concat trailer.identifier.token |>.resolve_left filled
  obtain ⟨blank, -, brace⟩ := plain last (by simp [same])
  exact ⟨row others ++ (trailer.gap ++ front), last, by simp [row, Trailer.written, same], blank, brace⟩

/-- The words of a line are those of the text and the identifiers. -/
theorem words_row (text : Text) (trailers : List Trailer) :
    words (text ++ row trailers) = words text ++ trailers.map (·.identifier.token) := by
  induction trailers generalizing text with
  | nil => simp [row]
  | cons trailer trailers ih =>
      obtain ⟨filled, plain, -⟩ := trailer.plain
      obtain ⟨c, gap, same, blank, blanks⟩ := trailer.gap_cons
      have whole : text ++ row (trailer :: trailers) =
          text ++ c :: (gap ++ (trailer.identifier.token ++ row trailers)) := by
        simp [row_cons, Trailer.written, same]
      rw [whole, words_append blank, words_append_blanks blanks, ih,
        words_filled filled fun d listed => (plain d listed).1]
      rfl

/-- The identifiers are read from the right, up to a word that is none. -/
theorem takeAll_tokens (trailers : List Trailer) {others : List Text}
    (stops : ∀ word ∈ others.head?, Identifier.ofToken? word = none) :
    trailingIdentifiers.takeAll ((trailers.map (·.identifier.token)).reverse ++ others) =
      (trailers.map (·.identifier)).reverse := by
  have rest : trailingIdentifiers.takeAll others = [] := by
    cases others with
    | nil => rfl
    | cons word others => simp [trailingIdentifiers.takeAll, stops word rfl]
  rw [← List.map_reverse, ← List.map_reverse]
  induction trailers.reverse with
  | nil => exact rest
  | cons trailer trailers ih =>
      rw [List.map_cons, List.cons_append, trailingIdentifiers.takeAll, ofToken?_token trailer.noted]
      exact congrArg (trailer.identifier :: ·) ih

theorem dropWords_trimEnd (count : Nat) (text : Text) : dropWords count (trimEnd text) = dropWords count text := by
  cases count with
  | zero => rw [dropWords, dropWords, trimEnd_trimEnd]
  | succ count => rw [dropWords, dropWords, dropLastWord_trimEnd]

/-- Without as many words as there are identifiers a line is the text in front of them. -/
theorem dropWords_row (text : Text) (trailers : List Trailer) :
    dropWords trailers.length (text ++ row trailers) = trimEnd text := by
  induction trailers using List.reverseRecOn with
  | nil => simp [row, dropWords]
  | append_singleton trailers trailer ih =>
      obtain ⟨filled, plain, -⟩ := trailer.plain
      have whole : text ++ row (trailers ++ [trailer]) =
          text ++ row trailers ++ (trailer.gap ++ trailer.identifier.token) := by
        simp [row, Trailer.written]
      have dropped : dropLastWord (text ++ row (trailers ++ [trailer])) = trimEnd (text ++ row trailers) := by
        rw [whole]
        exact dropLastWord_append filled (fun d listed => (plain d listed).1) trailer.apart
          (isBlank_of_isAllBlank trailer.blank) _
      rw [List.length_append, List.length_singleton, dropWords, dropped, dropWords_trimEnd, ih]

end Rows

section Bodies

variable {text body : Text} {depth : Nat} {previous quote : Option Char}

theorem takeBraceBody_ends (taken : takeBraceBody depth text = some (body, [])) : text.getLast? = some '}' := by
  induction text generalizing depth body with
  | nil => cases taken
  | cons c rest ih =>
      rw [takeBraceBody] at taken
      split at taken
      · next closes =>
          obtain ⟨-, rfl⟩ := Prod.mk.inj (Option.some.inj taken)
          rw [closes.1]
          rfl
      · obtain ⟨⟨inner, behind⟩, found, same⟩ := Option.map_eq_some_iff.mp taken
        obtain ⟨-, rfl⟩ := Prod.mk.inj same
        rw [List.getLast?_cons, ih found]
        rfl

/-- A body on the line is the last thing on it. -/
theorem splitFinalBraces_eq_none (other : text.getLast? ≠ some '}') :
    splitFinalBraces previous quote text = none := by
  induction text generalizing previous quote with
  | nil => rfl
  | cons c rest ih =>
      have later : rest.getLast? ≠ some '}' := by
        cases rest with
        | nil => simp
        | cons d rest => rwa [List.getLast?_cons_cons] at other
      have onward (quote : Option Char) (extend : Text × Text → Text × Text) :
          (splitFinalBraces (some c) quote rest).map extend = none := by
        rw [ih later, Option.map_none]
      rw [splitFinalBraces.eq_def]
      dsimp only
      split
      · exact onward _ _
      · split
        · exact onward _ _
        · split
          · split
            · next taken => exact absurd (takeBraceBody_ends taken) later
            · exact onward _ _
          · exact onward _ _

theorem splitCode_of_getLast? (opens : text.getLast? ≠ some '{') (closes : text.getLast? ≠ some '}') :
    splitCode text = ⟨text, none, false⟩ := by
  rw [splitCode, if_neg opens]
  split
  · rw [splitOneLineBody, splitFinalBraces_eq_none closes]
  · rfl

end Bodies

section Flags

/-- What identifiers stand for, in whatever order they are written. -/
def flags (declares : Bool) (identifiers : List Identifier) : Identifiers where
  isDeclaration := declares
  isTextual := identifiers.any fun identifier =>
    identifier == .toDo || identifier == .manual || identifier == .textual
  isToDo := identifiers.contains .toDo
  isManual := identifiers.contains .manual
  isDebug := identifiers.contains .debug
  isOnly := identifiers.contains .only
  isNonParallel := identifiers.contains .nonParallel
  isSequential := identifiers.contains .sequential
  isExpectedFail := identifiers.any fun identifier => identifier matches .expectedFail _
  expectedFailNote := identifiers.findSome? Identifier.note?

variable {identifiers others : List Identifier}

theorem foldl_add (declares : Bool) (identifiers : List Identifier) :
    identifiers.reverse.foldl Identifiers.add { isDeclaration := declares } = flags declares identifiers := by
  rw [List.foldl_reverse]
  induction identifiers with
  | nil => rfl
  | cons identifier rest ih =>
      rw [List.foldr_cons, ih]
      cases identifier with
      | expectedFail note => cases note <;> simp [flags, Identifiers.add, List.findSome?_cons, Identifier.note?]
      | toDo | manual | textual | debug | only | nonParallel | sequential =>
          simp [flags, Identifiers.add, List.findSome?_cons, Identifier.note?]

theorem flags_perm (reordered : identifiers.Perm others)
    (single : (identifiers.filterMap Identifier.note?).length ≤ 1) (declares : Bool) :
    flags declares identifiers = flags declares others := by
  have notes : identifiers.findSome? Identifier.note? = others.findSome? Identifier.note? := by
    rw [← List.head?_filterMap, ← List.head?_filterMap]
    have same := reordered.filterMap Identifier.note?
    match noted : identifiers.filterMap Identifier.note?, single with
    | [], _ => rw [noted] at same; rw [same.nil_eq]
    | [note], _ => rw [noted] at same; rw [List.perm_singleton.mp same.symm]
  rw [flags, flags, notes]
  simp only [reordered.any_eq, reordered.contains_eq]

end Flags

section Leads

variable {lead text word : Text} {trailers others : List Trailer} {filename : Option Text} {number : Nat}

/-- A text without its star. -/
def bare (lead : Text) : Text := trim (starred (trimStart lead)).2

/-- Text behind which identifiers may stand. -/
structure Lead (lead : Text) : Prop where
  filled : bare lead ≠ []
  settled : Settled lead
  unmarked : ∀ word ∈ (words lead).getLast?, Identifier.ofToken? word = none

/-- What follows the star of a text starts with a word, however the text goes on. -/
structure Follows (lead body : Text) : Prop where
  starts : ∃ first rest, body = first :: rest ∧ isBlank first = false
  goesOn : ∀ behind, starred (trimStart lead ++ behind) = ((starred (trimStart lead)).1, body ++ behind)
  unmarked : ∀ word ∈ (words body).tail.getLast?, Identifier.ofToken? word = none

theorem Lead.follows (starts : Lead lead) : Follows lead (starred (trimStart lead)).2 := by
  obtain ⟨filled, -, unmarked⟩ := starts
  rw [← words_trimStart] at unmarked
  rw [bare] at filled
  by_cases declared : (trimStart lead).head? = some '*'
  · obtain ⟨rest, same⟩ := List.head?_eq_some_iff.mp declared
    rw [same] at filled unmarked
    have begun : trimStart (trimStart rest) ≠ [] := trimStart_ne_nil filled
    have goes : trimStart rest ≠ [] := fun empty => begun (by rw [empty]; rfl)
    refine ⟨by rw [same]; exact exists_of_trimStart goes, fun behind => ?_, fun word isLast => ?_⟩
    · rw [same, List.cons_append, starred, trimStart_append goes]
      rfl
    · rw [same, starred, words_trimStart] at isLast
      exact unmarked word (getLast?_words_cons (by decide) isLast)
  · rw [starred_of_unstarred declared] at filled ⊢
    have begun : trimStart lead ≠ [] := by
      intro empty
      rw [empty] at filled
      exact filled rfl
    refine ⟨exists_of_trimStart begun, fun behind => ?_,
      fun word isLast => unmarked word (getLast?_of_tail isLast)⟩
    have still : (trimStart lead ++ behind).head? ≠ some '*' := by rwa [List.head?_append_of_ne_nil _ begun]
    rw [starred_of_unstarred still, starred_of_unstarred declared]

/-- White space in front of a line is not read, and nothing behind its text is taken for a comment. -/
theorem splitComment_row (starts : Lead lead) (trailed : trailers ≠ []) :
    splitComment (trim (lead ++ row trailers)) = (trimStart lead ++ row trailers, none) := by
  obtain ⟨front, last, same, filled, -⟩ := row_ends trailed
  have begun : trimStart lead ≠ [] := by
    intro empty
    have filled := starts.filled
    rw [bare, empty] at filled
    exact filled rfl
  have trimmed : trim (lead ++ row trailers) = trimStart lead ++ row trailers := by
    rw [same, ← List.append_assoc, trim_concat filled, List.append_assoc, trimStart_append begun]
  rw [trimmed, splitComment, (settled_row starts.settled.trimStart trailers).uncommented]

/-- A line with identifiers is no lone marker and has no code. -/
theorem parseContent_row (text : Text) (trailed : trailers ≠ []) :
    parseContent (text ++ row trailers) = (parseStep ⟨text ++ row trailers, none, false⟩).map (·, false) := by
  obtain ⟨front, last, same, -, brace⟩ := row_ends trailed
  have ends : (text ++ row trailers).getLast? = some last := by
    rw [same, ← List.append_assoc, List.getLast?_concat]
  have code : splitCode (text ++ row trailers) = ⟨text ++ row trailers, none, false⟩ := by
    apply splitCode_of_getLast?
    · rintro opens
      obtain rfl := Option.some.inj (ends.symm.trans opens)
      cases brace
    · rintro closes
      obtain rfl := Option.some.inj (ends.symm.trans closes)
      cases brace
  have spaced : text ++ row trailers ≠ ['.', '.'] := by
    obtain ⟨trailer, further, rfl⟩ := List.exists_cons_of_ne_nil trailed
    obtain ⟨c, gap, spaces, blank, -⟩ := trailer.gap_cons
    have listed : c ∈ text ++ row (trailer :: further) := by simp [row_cons, Trailer.written, spaces]
    intro dots
    rw [dots] at listed
    obtain rfl : c = '.' := by simpa using listed
    cases blank
  rw [parseContent, code]
  dsimp only
  rw [if_neg spaced]
  rfl

theorem trailingIdentifiers_row (starts : Lead lead) (trailers : List Trailer) :
    trailingIdentifiers (starred (trimStart lead ++ row trailers)).2 =
      (trailers.map (·.identifier)).reverse := by
  obtain ⟨⟨first, rest, same, filled⟩, goesOn, unmarked⟩ := starts.follows
  have worded : words (starred (trimStart lead)).2 ≠ [] := by
    rw [same]
    exact words_ne_nil filled rest
  rw [goesOn, trailingIdentifiers, words_row, List.tail_append_of_ne_nil worded, List.reverse_append]
  exact takeAll_tokens trailers (by rwa [List.head?_reverse])

/-- The text of a line with identifiers is what stands in front of them. -/
theorem text_row (starts : Lead lead) (trailers : List Trailer) :
    trim (stripIdentifiers (starred (trimStart lead ++ row trailers)).2) = bare lead := by
  have count :
      (trailingIdentifiers (starred (trimStart lead ++ row trailers)).2).length = trailers.length := by
    rw [trailingIdentifiers_row starts, List.length_reverse, List.length_map]
  obtain ⟨first, rest, same, filled⟩ := starts.follows.starts
  rw [stripIdentifiers, count, starts.follows.goesOn, dropWords_row, bare, same, trimEnd_cons filled, trim, trim,
    trimStart_cons filled, trimStart_cons filled, trimEnd_cons filled, trimEnd_cons filled, trimEnd_trimEnd]

theorem marks_row (starts : Lead lead) (trailers : List Trailer) :
    marks (trimStart lead ++ row trailers) =
      flags (starred (trimStart lead)).1 (trailers.map (·.identifier)) := by
  rw [marks, trailingIdentifiers_row starts, starts.follows.goesOn, foldl_add]

/-- The line as it was read, but for how it is written. -/
def unsourced (parsed : ParsedLine) : ParsedLine := { parsed with step := { parsed.step with line := [] } }

theorem parseStep_row (starts : Lead lead)
    (reordered : (trailers.map (·.identifier)).Perm (others.map (·.identifier)))
    (single : ((trailers.map (·.identifier)).filterMap Identifier.note?).length ≤ 1) :
    parseStep ⟨trimStart lead ++ row trailers, none, false⟩ =
      parseStep ⟨trimStart lead ++ row others, none, false⟩ := by
  apply parseStep_congr
  · rw [starts.follows.goesOn, starts.follows.goesOn]
  · rw [text_row starts, text_row starts]
  · rw [marks_row starts, marks_row starts, flags_perm reordered single]
  · rfl

/-- Identifiers may stand in any order and any distance apart. What the line says is the text in front of them,
flagged as they tell. -/
theorem parseLine_reordered (starts : Lead lead) (trailed : trailers ≠ [])
    (reordered : (trailers.map (·.identifier)).Perm (others.map (·.identifier)))
    (single : ((trailers.map (·.identifier)).filterMap Identifier.note?).length ≤ 1)
    (filename : Option Text) (number : Nat) :
    (parseLine (lead ++ row trailers) filename number).map unsourced =
        (parseLine (lead ++ row others) filename number).map unsourced ∧
      ∀ parsed, parseLine (lead ++ row trailers) filename number = .ok parsed →
        parsed.step.text = bare lead ∧ parsed.step.identifiers =
          { flags (starred (trimStart lead)).1 (trailers.map (·.identifier)) with
            isCall := parsed.step.identifiers.isCall } := by
  have trailed' : others ≠ [] := by
    rintro rfl
    exact trailed (List.map_eq_nil_iff.mp reordered.eq_nil)
  constructor
  · rw [parseLine, parseLine, splitComment_row starts trailed, splitComment_row starts trailed']
    dsimp only
    rw [parseContent_row _ trailed, parseContent_row _ trailed', parseStep_row starts reordered single]
    cases parseStep ⟨trimStart lead ++ row others, none, false⟩ <;> rfl
  · intro parsed read
    have read := parseContent_of_parseLine read
    rw [splitComment_row starts trailed, parseContent_row _ trailed] at read
    cases spoken : parseStep ⟨trimStart lead ++ row trailers, none, false⟩ with
    | error fault =>
        rw [spoken] at read
        cases read
    | ok content =>
        rw [spoken] at read
        obtain ⟨rfl, -⟩ := Prod.mk.inj (Except.ok.inj read)
        have accepted := accepted_of_parseStep spoken
        have flagged := accepted.identifiers
        rw [marks_row starts] at flagged
        exact ⟨accepted.text.trans (text_row starts trailers), by rw [flagged]⟩

def door : Text := "  Open 'the // door'"

def toDoLater : List Trailer := [
  ⟨[' '], .toDo, by decide, isAllBlank_space, by simp [Identifier.note?]⟩,
  ⟨['\t', '\u00a0'], .expectedFail (some "later"), by decide, rfl, by
    rintro _ ⟨⟩
    exact ⟨by decide, by simp; decide, by decide⟩⟩,
  ⟨[' ', ' '], .debug, by decide, rfl, by simp [Identifier.note?]⟩]

def laterToDo : List Trailer := toDoLater.reverse

theorem parseLine_reordered_door :
    door ++ row toDoLater = "  Open 'the // door' -T\t\u00a0#later  ~".toList ∧
      (parseLine (door ++ row toDoLater) none 1).map unsourced =
        (parseLine (door ++ row laterToDo) none 1).map unsourced ∧
      ∃ parsed, parseLine (door ++ row toDoLater) none 1 = .ok parsed ∧
        parsed.step.text = "Open 'the // door'".toList ∧ parsed.step.identifiers =
          { isTextual := true, isToDo := true, isDebug := true, isExpectedFail := true,
            expectedFailNote := some "later".toList, isCall := parsed.step.identifiers.isCall } := by
  have starts : Lead door := ⟨by decide, ⟨rfl, rfl⟩, fun word isLast => by cases isLast; rfl⟩
  have reordered : (toDoLater.map (·.identifier)).Perm (laterToDo.map (·.identifier)) := by decide
  have single : ((toDoLater.map (·.identifier)).filterMap Identifier.note?).length ≤ 1 := by decide
  obtain ⟨same, told⟩ := parseLine_reordered starts (List.cons_ne_nil _ _) reordered single none 1
  obtain ⟨parsed, read⟩ : ∃ parsed, parseLine (door ++ row toDoLater) none 1 = .ok parsed := ⟨_, rfl⟩
  exact ⟨rfl, same, parsed, read, told parsed read⟩

end Leads

end Step

end TestTree
