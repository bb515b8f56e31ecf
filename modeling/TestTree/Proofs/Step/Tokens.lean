import TestTree.Proofs.Step.Acceptance
import TestTree.Proofs.Text.Words

/-!
Lines that end in a token: a quoted string, a reference or a bracket. No comment, code block or assignment is
read out of such a line, and no identifier, unless the token holds white space and the last of its words
begins with `#`: that word is read as the note of an expected failure.
-/
namespace TestTree.Step

open Text

/-- Text in front of a token: no declaration, and nothing that ends where the token stands. -/
structure PlainLead (lead : Text) : Prop where
  filled : lead ≠ []
  trimmed : trim lead = lead
  unquoted : ∀ c ∈ lead, isQuote c = false
  uncommented : ¬ ['/', '/'] <:+: lead
  undeclared : lead.head? ≠ some '*'

/-- The contents of a reference or a bracket: without quotes, braces, brackets and comments. -/
structure Enclosable (content : Text) : Prop where
  plain : ∀ c ∈ content, isQuote c = false ∧ Reference.isBrace c = false ∧ c ≠ '[' ∧ c ≠ ']'
  uncommented : ¬ ['/', '/'] <:+: content

inductive Token : Text → Prop
  | string {text value : Text} (closed : unquote text = some value) : Token text
  | reference (reference : Reference) (enclosable : Enclosable reference.name) :
      Token reference.render
  | bracketed {content : Text} (enclosable : Enclosable content) : Token ('[' :: (content ++ [']']))

/-- The characters in which a token ends. -/
def endsToken (c : Char) : Bool := isQuote c || c == '}' || c == ']'

variable {lead text rest : Text} {c : Char}

theorem isBlank_of_endsToken (ends : endsToken c = true) : isBlank c = false := by
  simp only [endsToken, isQuote, Bool.or_eq_true, beq_iff_eq] at ends
  obtain ((rfl | rfl) | rfl) | rfl := ends <;> decide

/-- A word that ends as a token does is no identifier, unless it begins with `#`. -/
theorem ofToken?_concat (ends : endsToken c = true) (word : Text) :
    Identifier.ofToken? (word ++ [c]) =
      if word.head? = some '#' then some (.expectedFail (some (word.tail ++ [c]))) else none := by
  have last (front : Text) (d : Char) (same : word ++ [c] = front ++ [d]) : endsToken d = true := by
    obtain ⟨-, same⟩ := List.append_inj' same rfl
    rwa [← List.singleton_inj.mp same]
  rw [Identifier.ofToken?.eq_def]
  split
  · next same => exact absurd (last ['-'] 'T' same) (by decide)
  · next same => exact absurd (last ['-'] 'M' same) (by decide)
  · next same => exact absurd (last [] '-' same) (by decide)
  · next same => exact absurd (last [] '~' same) (by decide)
  · next same => exact absurd (last [] '$' same) (by decide)
  · next same => exact absurd (last [] '+' same) (by decide)
  · next same => exact absurd (last ['.'] '.' same) (by decide)
  · next same => exact absurd (last [] '#' same) (by decide)
  · next note filled same =>
      cases word with
      | nil => exact absurd (List.cons.inj same).2.symm filled
      | cons d tail =>
          obtain ⟨rfl, rfl⟩ := List.cons.inj same
          rfl
  · next foreign =>
      rw [if_neg]
      intro hash
      obtain ⟨tail, rfl⟩ := List.head?_eq_some_iff.mp hash
      exact foreign (tail ++ [c]) rfl

theorem Token.ends (token : Token text) :
    ∃ front last, text = front ++ [last] ∧ endsToken last = true := by
  cases token with
  | @string _ value closed =>
      obtain ⟨quote, tail, rfl, isQuote, taken⟩ := takeQuoted_of_unquote closed
      obtain ⟨read, rfl, -⟩ := splitOutside_inside [] taken
      exact ⟨quote :: read, quote, rfl, by simp [endsToken, isQuote]⟩
  | reference reference =>
      rw [Reference.render]
      split
      · exact ⟨'{' :: '{' :: (reference.name ++ ['}']), '}', by simp, rfl⟩
      · exact ⟨'{' :: reference.name, '}', rfl, rfl⟩
  | @bracketed content => exact ⟨'[' :: content, ']', rfl, rfl⟩

/-- No comment starts in what is enclosed. -/
theorem Enclosable.splitOutside_eq_none {content : Text} (enclosable : Enclosable content)
    {closer : Char} (closes : isQuote closer = false) (foreign : closer ≠ '/')
    (clear : splitOutside ['/', '/'] .outside rest = none) :
    splitOutside ['/', '/'] .outside (content ++ closer :: rest) = none := by
  have plain : ∀ c ∈ content, isQuote c = false := fun c listed => (enclosable.plain c listed).1
  rw [splitOutside_plain plain enclosable.uncommented (by simp [foreign])]
  simp [splitOutside, after?, QuoteState.next, closes, Ne.symm foreign, clear]

/-- No comment starts in a token. -/
theorem Token.splitOutside_eq_none (token : Token text) :
    splitOutside ['/', '/'] .outside text = none := by
  cases token with
  | @string _ value closed =>
      obtain ⟨quote, tail, rfl, isQuote, taken⟩ := takeQuoted_of_unquote closed
      obtain ⟨read, -, split⟩ := splitOutside_string isQuote ['/', '/'] taken
      rw [split]
      rfl
  | reference reference enclosable =>
      rw [Reference.render]
      split
      · have inner : splitOutside ['/', '/'] .outside (reference.name ++ ['}', '}']) = none :=
          enclosable.splitOutside_eq_none (by decide) (by decide) (by decide)
        simp [splitOutside, after?, QuoteState.next, isQuote, inner]
      · have inner : splitOutside ['/', '/'] .outside (reference.name ++ ['}']) = none :=
          enclosable.splitOutside_eq_none (by decide) (by decide) rfl
        simp [splitOutside, after?, QuoteState.next, isQuote, inner]
  | @bracketed content enclosable =>
      have inner : splitOutside ['/', '/'] .outside (content ++ [']']) = none :=
        enclosable.splitOutside_eq_none (by decide) (by decide) rfl
      simp [splitOutside, after?, QuoteState.next, isQuote, inner]

/-- What a line says that declares nothing and is no marker. -/
theorem of_parseContent {content : StepContent} {opens : Bool}
    (undeclared : (splitCode text).head.head? ≠ some '*') (spoken : (splitCode text).head ≠ ['.', '.'])
    (read : parseContent text = .ok (content, opens)) :
    content.text = trim (stripIdentifiers (splitCode text).head) ∧ content.identifiers =
      { (trailingIdentifiers (splitCode text).head).foldl Identifiers.add {} with
        isCall := content.identifiers.isCall } := by
  obtain ⟨dots, -⟩ | ⟨-, accepted, -⟩ := accepted_of_parseContent read
  · exact absurd dots spoken
  · have texts := accepted.text
    have flags := accepted.identifiers
    rw [marks] at flags
    rw [starred_of_unstarred undeclared] at texts flags
    rw [texts, flags]
    exact ⟨rfl, rfl⟩

theorem isExpectedFail_foldl (ids : Identifiers) (identifiers : List Identifier)
    (fails : ids.isExpectedFail = true) : (identifiers.foldl Identifiers.add ids).isExpectedFail = true := by
  induction identifiers generalizing ids with
  | nil => exact fails
  | cons identifier rest ih =>
      apply ih
      cases identifier with
      | expectedFail note => cases note <;> rfl
      | toDo | manual | textual | debug | only | nonParallel | sequential => exact fails

theorem trimEnd_line (token : Token text) (lead : Text) :
    trimEnd (lead ++ ' ' :: text) = lead ++ ' ' :: text := by
  obtain ⟨front, last, rfl, ends⟩ := token.ends
  rw [← List.cons_append, ← List.append_assoc, trimEnd_concat (isBlank_of_endsToken ends)]

section Lines

variable (leads : PlainLead lead) (token : Token text)

include leads

theorem PlainLead.starts : ∃ first tail, lead = first :: tail ∧ isBlank first = false := by
  obtain ⟨first, tail, rfl⟩ := List.exists_cons_of_ne_nil leads.filled
  exact ⟨first, tail, rfl, isBlank_head leads.trimmed⟩

include token

theorem trim_line : trim (lead ++ ' ' :: text) = lead ++ ' ' :: text := by
  obtain ⟨first, tail, rfl, starts⟩ := leads.starts
  obtain ⟨front, last, rfl, ends⟩ := token.ends
  have whole : first :: tail ++ ' ' :: (front ++ [last]) =
      first :: ((tail ++ ' ' :: front) ++ [last]) := by simp
  rw [whole]
  exact trim_cons_concat starts (isBlank_of_endsToken ends) _

theorem splitComment_line : splitComment (lead ++ ' ' :: text) = (lead ++ ' ' :: text, none) := by
  have none : splitOutside ['/', '/'] .outside (' ' :: text) = none := by
    simp [splitOutside, after?, QuoteState.next, isQuote, token.splitOutside_eq_none]
  rw [splitComment, splitOutside_plain leads.unquoted leads.uncommented (by decide), none]
  rfl

theorem splitCode_line : splitCode (lead ++ ' ' :: text) = ⟨lead ++ ' ' :: text, none, false⟩ := by
  obtain ⟨first, tail, rfl, -⟩ := leads.starts
  obtain ⟨front, last, rfl, ends⟩ := token.ends
  have closed : last ≠ '{' := by
    rintro rfl
    revert ends
    decide
  have unstarred : first ≠ '*' := fun star => leads.undeclared (congrArg some star)
  rw [splitCode, if_neg, if_neg]
  · simp [unstarred]
  · have whole : first :: tail ++ ' ' :: (front ++ [last]) = (first :: (tail ++ ' ' :: front)) ++ [last] := by
      simp
    rw [whole, List.getLast?_concat]
    simpa using closed

/-- The last word of a line is the last one of the token. -/
theorem lastWord_line : (words (lead ++ ' ' :: text)).tail.getLast? = (words text).getLast? := by
  obtain ⟨first, tail, rfl, starts⟩ := leads.starts
  obtain ⟨front, last, rfl, ends⟩ := token.ends
  obtain ⟨word, isLast⟩ := getLast?_words (isBlank_of_endsToken ends) front
  rw [words_append (by decide), List.tail_append_of_ne_nil (words_ne_nil starts tail),
    List.getLast?_append, isLast, Option.some_or]

/-- The token is no identifier, unless its last word begins with `#`. -/
theorem trailingIdentifiers_line {word : Text} (isLast : (words text).getLast? = some word) :
    (word.head? ≠ some '#' → trailingIdentifiers (lead ++ ' ' :: text) = []) ∧
      (word.head? = some '#' → ∃ note others,
        trailingIdentifiers (lead ++ ' ' :: text) = .expectedFail (some note) :: others) := by
  obtain ⟨front, last, same, ends⟩ := token.ends
  obtain ⟨inner, found⟩ := getLast?_words (isBlank_of_endsToken ends) front
  rw [← same] at found
  obtain rfl := Option.some.inj (isLast.symm.trans found)
  obtain ⟨others, split⟩ := List.getLast?_eq_some_iff.mp ((lastWord_line leads token).trans isLast)
  have head : (inner ++ [last]).head? = some '#' ↔ inner.head? = some '#' := by
    cases inner with
    | nil =>
        have foreign : last ≠ '#' := by
          rintro rfl
          exact absurd ends (by decide)
        simp [foreign]
    | cons first rest => rfl
  rw [ne_eq, head, trailingIdentifiers, split, List.reverse_concat, trailingIdentifiers.takeAll,
    ofToken?_concat ends]
  constructor
  · intro other
    rw [if_neg other]
  · intro hash
    rw [if_pos hash]
    exact ⟨_, _, rfl⟩

/-- Nothing but the trailing identifiers is cut off the line. -/
theorem of_parseLine_line {filename : Option Text} {number : Nat} {parsed : ParsedLine}
    (read : parseLine (lead ++ ' ' :: text) filename number = .ok parsed) :
    parsed.step.text = trim (stripIdentifiers (lead ++ ' ' :: text)) ∧ parsed.step.identifiers =
      { (trailingIdentifiers (lead ++ ' ' :: text)).foldl Identifiers.add {} with
        isCall := parsed.step.identifiers.isCall } := by
  have undeclared : (lead ++ ' ' :: text).head? ≠ some '*' := by
    obtain ⟨first, tail, rfl, -⟩ := leads.starts
    exact leads.undeclared
  have spoken : lead ++ ' ' :: text ≠ ['.', '.'] := fun same => by
    have listed : ' ' ∈ ['.', '.'] := same ▸ List.mem_append_right lead List.mem_cons_self
    exact absurd listed (by decide)
  rw [parseLine, trim_line leads token, splitComment_line leads token] at read
  dsimp only at read
  split at read
  · cases read
  · next content opens ok =>
      have whole := of_parseContent (by rwa [splitCode_line leads token])
        (by rwa [splitCode_line leads token]) ok
      rw [splitCode_line leads token] at whole
      cases read
      exact whole

end Lines

/-- A line that ends in a token is left whole and has no identifiers, exactly unless the last word of the token
begins with `#`. -/
theorem parseLine_token_iff {filename : Option Text} {number : Nat} {parsed : ParsedLine}
    (leads : PlainLead lead) (token : Token text)
    (read : parseLine (lead ++ ' ' :: text) filename number = .ok parsed) :
    (parsed.step.text = lead ++ ' ' :: text ∧
        parsed.step.identifiers = { isCall := parsed.step.identifiers.isCall }) ↔
      ∀ word, (words text).getLast? = some word → word.head? ≠ some '#' := by
  obtain ⟨texts, flags⟩ := of_parseLine_line leads token read
  obtain ⟨front, last, same, ends⟩ := token.ends
  obtain ⟨inner, isLast⟩ := getLast?_words (isBlank_of_endsToken ends) front
  rw [← same] at isLast
  obtain ⟨clear, failing⟩ := trailingIdentifiers_line leads token isLast
  simp only [isLast, Option.some.injEq, forall_eq']
  constructor
  · rintro ⟨-, plain⟩ hash
    obtain ⟨note, others, trailing⟩ := failing hash
    have fails := isExpectedFail_foldl (Identifiers.add {} (.expectedFail (some note))) others rfl
    have unfailing := congrArg Identifiers.isExpectedFail (flags.symm.trans plain)
    rw [trailing] at unfailing
    exact Bool.noConfusion (fails.symm.trans unfailing)
  · intro other
    rw [clear other] at flags
    refine ⟨?_, flags⟩
    rw [texts, stripIdentifiers, clear other]
    exact (congrArg trim (trimEnd_line token lead)).trans (trim_line leads token)

/-- The end of a string stays part of it, although it looks like an identifier apart from its quote. -/
theorem parseLine_token_iff_page :
    PlainLead "Open".toList ∧ Token "'the # page -'".toList ∧ ∃ parsed,
      parseLine "Open 'the # page -'".toList none 1 = .ok parsed ∧
        (words "'the # page -'".toList).getLast? = some "-'".toList ∧
        parsed.step.text = "Open 'the # page -'".toList ∧ parsed.step.identifiers = { isCall := true } := by
  have leads : PlainLead "Open".toList :=
    ⟨by decide, by decide, by simp [isQuote], by decide, by decide⟩
  have token : Token "'the # page -'".toList :=
    .string (by decide +kernel : unquote "'the # page -'".toList = some "the # page -".toList)
  have accepted : (parseLine "Open 'the # page -'".toList none 1).toOption.map
      (·.step.identifiers.isCall) = some true := by
    decide +kernel
  have last : (words "'the # page -'".toList).getLast? = some "-'".toList := by decide +kernel
  cases read : parseLine "Open 'the # page -'".toList none 1 with
  | error error =>
      rw [read] at accepted
      cases accepted
  | ok parsed =>
      rw [read] at accepted
      have calls : parsed.step.identifiers.isCall = true := Option.some.inj accepted
      obtain ⟨whole, plain⟩ := (parseLine_token_iff leads token read).mpr (by
        rintro word isLast
        obtain rfl := Option.some.inj (last.symm.trans isLast)
        decide)
      rw [calls] at plain
      exact ⟨leads, token, parsed, rfl, last, whole, plain⟩

/-- The last word of a string is read as the note of an expected failure, and cut off the text. -/
theorem note_read_out_of_string :
    PlainLead "Click".toList ∧ Token "'order #5'".toList ∧
      (parseLine "Click 'order #5'".toList none 1).toOption.map
          (fun parsed => (parsed.step.text, parsed.step.identifiers)) =
        some ("Click 'order".toList,
          { isCall := true, isExpectedFail := true, expectedFailNote := some "5'".toList }) :=
  ⟨⟨by decide, by decide, by simp [isQuote], by decide, by decide⟩,
    .string (by decide +kernel : unquote "'order #5'".toList = some "order #5".toList), by decide +kernel⟩

end TestTree.Step
