import TestTree.Proofs.Call.Spelling
import TestTree.Proofs.Step.Acceptance

/-!
Brackets in calls. Two scanners read the brackets of a call: `ElementFinder.segments` finds what is read as an element
finder, and `CallName.pieces` finds the inputs. They agree up to the first quote that opens no string: what stands
behind it is hidden from the former only. Nor do they agree on what stands between braces, which is never more than
one input to the latter.
-/
namespace TestTree

namespace ElementFinder

open Text

variable {text token content rest value : Text} {quote : Char} {start offset : Nat}

/-- Read over by a scanner for brackets: no bracket outside quoted strings, and no string left open. -/
structure Transparent (token : Text) : Prop where
  unbracketed : splitOutside ['['] .outside token = none
  closed : token.foldl QuoteState.next .outside = .outside

theorem segments_append {state : QuoteState} (unbracketed : splitOutside ['['] state token = none) (rest : Text)
    (offset : Nat) : segments state offset (token ++ rest) =
      segments (token.foldl QuoteState.next state) (offset + token.utf8Size) rest := by
  induction token generalizing state offset with
  | nil => rfl
  | cons c token ih =>
      rw [splitOutside] at unbracketed
      split at unbracketed
      · cases unbracketed
      · next absent =>
          have plain : ¬ (state = .outside ∧ c = '[') := by
            rintro ⟨outside, rfl⟩
            exact absent ⟨outside, by decide, rfl⟩
          rw [List.cons_append, segments, if_neg plain, ih (Option.map_eq_none_iff.mp unbracketed), List.foldl_cons,
            utf8Size, Nat.add_assoc]

instance (token : Text) : Decidable (Transparent token) :=
  decidable_of_iff (splitOutside ['['] .outside token = none ∧ token.foldl QuoteState.next .outside = .outside)
    ⟨fun both => ⟨both.1, both.2⟩, fun transparent => ⟨transparent.unbracketed, transparent.closed⟩⟩

/-- A string is read over. -/
theorem segments_string (taken : takeQuotedBody quote text = some (value, rest)) (offset : Nat) :
    ∃ read, text = read ++ rest ∧
      segments (.inside quote) offset text = segments .outside (offset + read.utf8Size) rest := by
  fun_induction takeQuotedBody quote text generalizing value offset with
  | case1 | case2 => cases taken
  | case3 c tail ih =>
      obtain ⟨⟨inner, behind⟩, found, same⟩ := Option.map_eq_some_iff.mp taken
      cases same
      obtain ⟨read, rfl, scanned⟩ := ih found (offset + '\\'.utf8Size + c.utf8Size)
      refine ⟨'\\' :: c :: read, rfl, ?_⟩
      simpa [segments, QuoteState.next, utf8Size, Nat.add_assoc] using scanned
  | case4 tail ends escapes =>
      have plain := ne_backslash ends escapes
      cases taken
      exact ⟨[quote], rfl, by simp [segments, QuoteState.next, utf8Size, plain]⟩
  | case5 c tail ends escapes different ih =>
      obtain ⟨⟨inner, behind⟩, found, same⟩ := Option.map_eq_some_iff.mp taken
      cases same
      have plain := ne_backslash ends escapes
      obtain ⟨read, rfl, scanned⟩ := ih found (offset + c.utf8Size)
      refine ⟨c :: read, rfl, ?_⟩
      simpa [segments, QuoteState.next, utf8Size, plain, different, Nat.add_assoc] using scanned

/-- Behind a quote that opens no string nothing is found. -/
theorem segments_unclosed (unclosed : takeQuotedBody quote text = none) (offset : Nat) :
    segments (.inside quote) offset text = [] := by
  fun_induction takeQuotedBody quote text generalizing offset with
  | case1 => rfl
  | case2 => simp [segments]
  | case3 c tail ih =>
      simp [segments, QuoteState.next, ih (Option.map_eq_none_iff.mp unclosed)]
  | case4 => cases unclosed
  | case5 c tail ends escapes different ih =>
      have plain := ne_backslash ends escapes
      simp [segments, QuoteState.next, plain, different, ih (Option.map_eq_none_iff.mp unclosed)]

theorem bracket_append (absent : ']' ∉ content) (done rest : Text) :
    segments.bracket start offset done (content ++ ']' :: rest) =
      (start, done.reverse ++ content) :: segments .outside (offset + content.utf8Size + 1) rest := by
  induction content generalizing offset done with
  | nil => simp [segments.bracket, utf8Size]
  | cons c content ih =>
      have goes : c ≠ ']' := fun same => absent (same ▸ .head _)
      rw [List.cons_append, segments.bracket, if_neg goes, ih fun listed => absent (.tail _ listed)]
      simp [utf8Size, Nat.add_assoc]

theorem bracket_unclosed (absent : ']' ∉ text) (done : Text) :
    segments.bracket start offset done text = [] := by
  induction text generalizing offset done with
  | nil => rfl
  | cons c text ih =>
      have goes : c ≠ ']' := fun same => absent (same ▸ .head _)
      rw [segments.bracket, if_neg goes, ih fun listed => absent (.tail _ listed)]

end ElementFinder

namespace CallName

open Text ElementFinder

variable {c : Char} {text token behind rest : Text} {ps : List Piece}

/-- A quote that opens no string. -/
def Piece.isLoneQuote : Piece → Bool
  | .input _ => false
  | .plain c => isQuote c

/-- The pieces in front of the first quote that opens no string. -/
def inSight (text : Text) : List Piece := (pieces text).takeWhile (!·.isLoneQuote)

/-- The pieces from the first quote on that opens no string. -/
def outOfSight (text : Text) : List Piece := (pieces text).dropWhile (!·.isLoneQuote)

/-- The inputs in brackets. -/
def brackets (ps : List Piece) : List Text := (ps.filterMap Piece.input?).filter (·.head? = some '[')

theorem brackets_append (ps others : List Piece) : brackets (ps ++ others) = brackets ps ++ brackets others := by
  simp [brackets]

theorem brackets_pieces (text : Text) :
    brackets (pieces text) = brackets (inSight text) ++ brackets (outOfSight text) := by
  rw [← brackets_append, inSight, outOfSight, List.takeWhile_append_dropWhile]

theorem inSight_of_takeInput (taken : takeInput text = some (token, behind)) :
    inSight text = .input token :: inSight behind := by
  rw [inSight, pieces_of_takeInput taken]
  rfl

theorem inSight_cons (plain : takeInput (c :: rest) = none) :
    inSight (c :: rest) = if isQuote c then [] else .plain c :: inSight rest := by
  rw [inSight, pieces_cons plain, List.takeWhile_cons]
  cases quoted : isQuote c <;> simp [Piece.isLoneQuote, quoted, inSight]

theorem head?_of_takeInput (taken : takeInput (c :: rest) = some (token, behind)) : token.head? = some c := by
  have whole := eq_append_of_takeInput taken
  have shorter := length_of_takeInput taken
  cases token with
  | nil =>
      rw [List.nil_append] at whole
      rw [whole] at shorter
      exact absurd shorter (Nat.lt_irrefl _)
  | cons d token =>
      obtain ⟨rfl, -⟩ := List.cons.inj whole
      rfl

theorem splitBehind_eq_none {closer : Text} (absent : c ∉ text) : splitBehind (c :: closer) text = none := by
  induction text with
  | nil => rfl
  | cons d text ih =>
      have foreign : c ≠ d := fun same => absent (same ▸ .head _)
      rw [splitBehind, ih fun listed => absent (.tail _ listed)]
      simp [after?, foreign]

/-- A bracket is an input up to the first closing one, or it is a plain character that nothing closes. -/
theorem takeInput_bracket (rest : Text) :
    (∃ content behind, ']' ∉ content ∧ rest = content ++ ']' :: behind ∧
        takeInput ('[' :: rest) = some ('[' :: (content ++ [']']), behind)) ∨
      ']' ∉ rest ∧ takeInput ('[' :: rest) = none := by
  by_cases closed : ']' ∈ rest
  · obtain ⟨content, behind, rfl, absent⟩ := List.eq_append_cons_of_mem closed
    refine .inl ⟨content, behind, absent, rfl, ?_⟩
    simpa using takeInput_append (.bracketed absent) behind
  · refine .inr ⟨closed, ?_⟩
    have unclosed : splitBehind [']'] ('[' :: rest) = none := splitBehind_eq_none (by simpa using closed)
    simp [takeInput, isQuote, unclosed]

/-- Without a closing bracket there is no input in brackets. -/
theorem brackets_unclosed (absent : ']' ∉ text) : brackets (pieces text) = [] := by
  fun_induction pieces text with
  | case1 => rfl
  | case2 c rest token behind taken ih =>
      have unbracketed : c ≠ '[' := by
        rintro rfl
        obtain ⟨content, tail, -, rfl, -⟩ | ⟨-, plain⟩ := takeInput_bracket rest
        · exact absent (by simp)
        · cases taken.symm.trans plain
      have further : ']' ∉ behind := fun listed =>
        absent (eq_append_of_takeInput taken ▸ List.mem_append_right token listed)
      simpa [brackets, Piece.input?, head?_of_takeInput taken, unbracketed] using ih further
  | case3 c rest plain ih => exact ih fun listed => absent (.tail _ listed)

theorem brackets_inSight_unclosed (absent : ']' ∉ text) : brackets (inSight text) = [] :=
  (List.append_eq_nil_iff.mp ((brackets_pieces text).symm.trans (brackets_unclosed absent))).1

/-- An input that a scanner for brackets reads over. -/
theorem segments_of_takeInput (taken : takeInput text = some (token, behind)) (unbracketed : token.head? ≠ some '[')
    (braces : token.head? = some '{' → Transparent token) (offset : Nat) :
    segments .outside offset text = segments .outside (offset + token.utf8Size) behind := by
  have whole := eq_append_of_takeInput taken
  cases text with
  | nil => cases taken
  | cons c rest =>
      have head := head?_of_takeInput taken
      rw [takeInput] at taken
      split at taken
      · next quoted =>
          obtain ⟨⟨value, tail⟩, found, same⟩ := Option.map_eq_some_iff.mp taken
          obtain ⟨-, rfl⟩ := Prod.mk.inj same
          rw [takeQuoted, if_pos quoted] at found
          obtain ⟨read, rfl, scanned⟩ := segments_string found (offset + c.utf8Size)
          obtain rfl : c :: read = token := List.append_cancel_right whole
          have starts : ¬ (QuoteState.outside = .outside ∧ c = '[') := fun same => unbracketed (same.2 ▸ head)
          rw [segments, if_neg starts, QuoteState.next, if_pos quoted, scanned, utf8Size, Nat.add_assoc]
      · split at taken
        · next brace =>
            obtain ⟨unbracketed, closed⟩ := braces (brace ▸ head)
            rw [whole, segments_append unbracketed, closed]
        · next other =>
            split at taken
            · next bracket => exact absurd (bracket ▸ head) unbracketed
            · cases taken

theorem utf8Size_bracketed (content : Text) : utf8Size ('[' :: (content ++ [']'])) = content.utf8Size + 2 := by
  rw [utf8Size, utf8Size_append, show '['.utf8Size = 1 by decide, show utf8Size [']'] = 1 by decide]
  omega

/-- `token` is a bracketed segment of a text, brackets included, and stands where it says. -/
structure Cuts (whole : Text) (segment : Nat × Text) (token : Text) : Prop where
  bracketed : token = '[' :: (segment.2 ++ [']'])
  stands : ∃ before behind, whole = before ++ token ++ behind ∧ before.utf8Size = segment.1

/-- The segments of a text are its inputs in brackets, up to the first quote that opens no string. -/
theorem cuts_segments (text before : Text)
    (braces : ∀ token, .input token ∈ inSight text → token.head? = some '{' → Transparent token) :
    List.Forall₂ (Cuts (before ++ text)) (segments .outside before.utf8Size text) (brackets (inSight text)) := by
  fun_induction pieces text generalizing before with
  | case1 =>
      rw [inSight, pieces]
      exact .nil
  | case2 c rest token behind taken ih =>
      have whole := eq_append_of_takeInput taken
      rw [inSight_of_takeInput taken] at braces ⊢
      have further := ih (before ++ token) fun token listed => braces token (.tail _ listed)
      rw [List.append_assoc, ← whole, utf8Size_append] at further
      have head := head?_of_takeInput taken
      by_cases bracket : c = '['
      · obtain rfl := bracket
        obtain ⟨content, tail, absent, rfl, cut⟩ | ⟨-, plain⟩ := takeInput_bracket rest
        · cases cut.symm.trans taken
          rw [utf8Size_bracketed] at further
          rw [segments, if_pos ⟨rfl, rfl⟩, bracket_append absent, Nat.add_right_comm _ 1, Nat.add_assoc _ 1]
          exact .cons ⟨rfl, before, behind, by simp, rfl⟩ further
        · cases plain.symm.trans taken
      · have unbracketed : token.head? ≠ some '[' := fun same => bracket (Option.some.inj (head.symm.trans same))
        rw [segments_of_takeInput taken unbracketed (braces token (.head _))]
        simpa [brackets, Piece.input?, unbracketed] using further
  | case3 c rest plain ih =>
      rw [inSight_cons plain] at braces ⊢
      split at braces
      · next quoted =>
          have unclosed : takeQuotedBody c rest = none := by
            rw [takeInput, if_pos quoted, takeQuoted, if_pos quoted] at plain
            exact Option.map_eq_none_iff.mp plain
          have starts : c ≠ '[' := by
            rintro rfl
            exact absurd quoted (by decide)
          rw [if_pos quoted, segments, if_neg fun same => starts same.2, QuoteState.next, if_pos quoted,
            segments_unclosed unclosed]
          exact .nil
      · next unquoted =>
          rw [if_neg unquoted]
          by_cases bracket : c = '['
          · obtain rfl := bracket
            obtain ⟨content, tail, -, -, cut⟩ | ⟨absent, -⟩ := takeInput_bracket rest
            · cases cut.symm.trans plain
            · rw [segments, if_pos ⟨rfl, rfl⟩, bracket_unclosed absent]
              exact (brackets_inSight_unclosed absent).symm ▸ .nil
          · have further := ih (before ++ [c]) fun token listed => braces token (.tail _ listed)
            rw [utf8Size_append, List.append_assoc] at further
            rw [segments, if_neg fun same => bracket same.2, QuoteState.next, if_neg unquoted]
            exact further

/-- `token` is the stretch of a text between two offsets. -/
def StandsAt (whole : Text) (span : Nat × Nat) (token : Text) : Prop :=
  ∃ before behind, whole = before ++ token ++ behind ∧ span = (before.utf8Size, (before ++ token).utf8Size)

/-- `finder` is what is read between the brackets of a token. -/
def Finds (token : Text) (finder : ElementFinder) : Prop :=
  ∃ content, token = '[' :: (content ++ [']']) ∧ parse content = .ok finder

/-- How far two readings of the brackets of a call agree: as the inputs in brackets, and as spans with an element
finder for each. -/
structure ReadAlike (call : Text) (finders : List ElementFinder) : Prop where
  spans : List.Forall₂ (StandsAt call) (spans call) (brackets (inSight call))
  finders : List.Forall₂ Finds (brackets (inSight call)) finders
  whole : List.Forall₂ (StandsAt call) (ElementFinder.spans call) ((inputs call).filter (·.head? = some '[')) ↔
    brackets (outOfSight call) = []

theorem finds_of_cuts {whole : Text} {segments : List (Nat × Text)} {tokens : List Text} {finders : List ElementFinder}
    (cuts : List.Forall₂ (Cuts whole) segments tokens)
    (parsed : List.Forall₂ (fun segment finder => parse segment.2 = .ok finder) segments finders) :
    List.Forall₂ Finds tokens finders := by
  induction cuts generalizing finders with
  | nil =>
      cases parsed
      exact .nil
  | cons cut _ ih =>
      cases parsed with
      | cons found rest => exact .cons ⟨_, cut.bracketed, found⟩ (ih rest)

theorem standsAt_of_cuts {whole token : Text} {segment : Nat × Text} (cuts : Cuts whole segment token) :
    StandsAt whole (segment.1, segment.1 + segment.2.utf8Size + 2) token := by
  obtain ⟨bracketed, before, behind, stands, starts⟩ := cuts
  refine ⟨before, behind, stands, ?_⟩
  rw [utf8Size_append, bracketed, utf8Size_bracketed, starts, Nat.add_assoc]

theorem readAlike_of_parseAll {call : Text} {finders : List ElementFinder}
    (braces : ∀ token ∈ (inSight call).filterMap Piece.input?, token.head? = some '{' → Transparent token)
    (parsed : parseAll call = .ok finders) : ReadAlike call finders := by
  have cuts := cuts_segments call [] fun token listed =>
    braces token (List.mem_filterMap.mpr ⟨.input token, listed, rfl⟩)
  have stands : List.Forall₂ (StandsAt call) (spans call) (brackets (inSight call)) :=
    List.forall₂_map_left_iff.mpr (cuts.imp fun _ _ => standsAt_of_cuts)
  refine ⟨stands, finds_of_cuts cuts (Step.forall₂_of_mapM parsed), ?_⟩
  have all : (inputs call).filter (·.head? = some '[') = brackets (inSight call) ++ brackets (outOfSight call) := by
    rw [inputs_eq]
    exact brackets_pieces call
  rw [all]
  constructor
  · intro whole
    have number := whole.length_eq.symm.trans stands.length_eq
    rw [List.length_append] at number
    exact List.eq_nil_of_length_eq_zero (Nat.add_left_cancel (number.trans (Nat.add_zero _).symm))
  · intro none
    rw [none, List.append_nil]
    exact stands

/-- The brackets of a call that a line makes are read as element finders up to the first quote that opens no string,
unless an input in braces hides or shows one. All of them are, exactly if none stands behind such a quote. -/
theorem readAlike_of_parseLine {line : Text} {filename : Option Text} {number : Nat} {parsed : Step.ParsedLine}
    (read : Step.parseLine line filename number = .ok parsed) (call : parsed.step.identifiers.isCall = true)
    (braces : ∀ token ∈ (inSight parsed.step.callText).filterMap Piece.input?,
      token.head? = some '{' → Transparent token) :
    ReadAlike parsed.step.callText parsed.step.finders := by
  obtain ⟨-, -, marker, -⟩ | ⟨-, accepted, -⟩ :=
    Step.accepted_of_parseContent (Step.parseContent_of_parseLine read)
  · rw [marker] at call
    cases call
  · have found := accepted.finders
    rw [accepted.identifiers] at call
    have calls : Step.onlyLiterals parsed.step.assignments = false := by simp_all
    rw [calls] at found
    exact readAlike_of_parseAll braces found

theorem exists_call {line call : Text}
    (accepted : (Step.parseLine line none 1).toOption.map
      (fun parsed => (parsed.step.identifiers.isCall, parsed.step.callText)) = some (true, call)) :
    ∃ parsed, Step.parseLine line none 1 = .ok parsed ∧ parsed.step.identifiers.isCall = true ∧
      parsed.step.callText = call := by
  cases read : Step.parseLine line none 1 with
  | error error =>
      rw [read] at accepted
      cases accepted
  | ok parsed =>
      rw [read] at accepted
      obtain ⟨calls, text⟩ := Prod.mk.inj (Option.some.inj accepted)
      exact ⟨parsed, rfl, calls, text⟩

/-- An assignment of a call with brackets in a string, in braces, on their own, and behind an apostrophe. -/
def errand : Text := "\x7ba\x7d = Fetch 'a [b\\' c' \x7b\"[z\"\x7d [1st 'x' next to 'y'] and [Ok], don't [###]"

theorem readAlike_of_parseLine_errand : ∃ parsed, Step.parseLine errand none 1 = .ok parsed ∧
    parsed.step.identifiers.isCall = true ∧
    brackets (inSight parsed.step.callText) = ["[1st 'x' next to 'y']".toList, "[Ok]".toList] ∧
    brackets (outOfSight parsed.step.callText) = ["[###]".toList] ∧
    (∀ token ∈ (inSight parsed.step.callText).filterMap Piece.input?,
      token.head? = some '{' → Transparent token) ∧
    ReadAlike parsed.step.callText parsed.step.finders := by
  have accepted : (Step.parseLine errand none 1).toOption.map
      (fun parsed => (parsed.step.identifiers.isCall, parsed.step.callText)) =
        some (true, errand.drop 6) := by decide +kernel
  obtain ⟨parsed, read, call, text⟩ := exists_call accepted
  have braces : ∀ token ∈ (inSight parsed.step.callText).filterMap Piece.input?,
      token.head? = some '{' → Transparent token := by
    rw [text]
    decide +kernel
  refine ⟨parsed, read, call, ?_, ?_, braces, readAlike_of_parseLine read call braces⟩
  · rw [text]
    decide +kernel
  · rw [text]
    decide +kernel

/-- Behind an apostrophe an input in brackets may be no element finder at all. -/
theorem bracket_behind_lone_quote : ∃ parsed, Step.parseLine "Don't press [###]".toList none 1 = .ok parsed ∧
    parsed.step.identifiers.isCall = true ∧ inputs parsed.step.callText = ["[###]".toList] ∧
    spans parsed.step.callText = [] ∧ (parse "###".toList).toOption = none := by
  have accepted : (Step.parseLine "Don't press [###]".toList none 1).toOption.map
      (fun parsed => (parsed.step.identifiers.isCall, parsed.step.callText)) =
        some (true, "Don't press [###]".toList) := by decide +kernel
  obtain ⟨parsed, read, call, text⟩ := exists_call accepted
  refine ⟨parsed, read, call, ?_, ?_, by decide +kernel⟩
  · rw [text]
    decide +kernel
  · rw [text]
    decide +kernel

end CallName

end TestTree
