import TestTree.Proofs.Step.Acceptance
import TestTree.Proofs.Text.Words
import TestTree.Tree.Source

/-!
The lines of a file by their place, counted from 0. `opener` tells which line opened the code block that a
line stands in, or closes; every other line is blank, a comment, a marker or a step. `Scans` tells what the
scanner makes of the lines from one of them on.
-/
namespace TestTree.Source

open Text

def isBlankLine (line : Text) : Bool := (trim line).isEmpty

def isCommentLine (line : Text) : Bool := (after? ['/', '/'] (trim line)).isSome

/-- A line of two dots, but for a comment. -/
def isMarkerLine (line : Text) : Bool := (Step.splitComment (trim line)).1 = ['.', '.']

/-- A line that ends, but for a comment, in the brace of a code block on the lines below. -/
def opensCode (line : Text) : Bool := (Step.splitComment (trim line)).1.getLast? = some '{'

/-- The white space at the start of a line. -/
def margin (line : Text) : Text := line.takeWhile isBlank

def depth (line : Text) : Nat := ((numIndents line).toOption).getD 0

/-- Whether a line ends the code block that the line `first` opened. -/
def closes (first line : Text) : Bool := codeLine (depth first) line = .closer

section Lines

variable {first line : Text} {filename : Option Text} {number indents : Nat} {parsed : Step.ParsedLine}

theorem splitComment_of_comment (comment : isCommentLine line = true) :
    (Step.splitComment (trim line)).1 = [] := by
  rw [isCommentLine] at comment
  generalize trim line = body at comment ⊢
  obtain ⟨behind, found⟩ := Option.isSome_iff_exists.mp comment
  have starts : body = '/' :: '/' :: behind := after?_eq_some found
  rw [starts] at comment ⊢
  have split : splitOutside ['/', '/'] .outside ('/' :: '/' :: behind) =
      some ([], '/' :: '/' :: behind) := if_pos ⟨rfl, rfl, comment⟩
  rw [Step.splitComment, split]
  rfl

theorem splitComment_of_blank (blank : isBlankLine line = true) :
    (Step.splitComment (trim line)).1 = [] := by
  rw [isBlankLine, List.isEmpty_iff] at blank
  rw [blank]
  rfl

theorem trim_of_closes (closed : closes first line = true) : trim line = ['}'] := by
  rw [closes, decide_eq_true_eq, codeLine] at closed
  split at closed
  · cases closed
  · next brace => exact Decidable.not_not.mp brace

theorem plain_of_comment (comment : isCommentLine line = true) :
    isBlankLine line = false ∧ isMarkerLine line = false ∧ opensCode line = false := by
  refine ⟨?_, ?_, ?_⟩
  · rw [isCommentLine] at comment
    rw [isBlankLine]
    cases body : trim line with
    | nil =>
        rw [body] at comment
        cases comment
    | cons => rfl
  · rw [isMarkerLine, splitComment_of_comment comment]
    rfl
  · rw [opensCode, splitComment_of_comment comment]
    rfl

theorem plain_of_blank (blank : isBlankLine line = true) :
    isCommentLine line = false ∧ isMarkerLine line = false ∧ opensCode line = false := by
  refine ⟨?_, ?_, ?_⟩
  · rw [isBlankLine, List.isEmpty_iff] at blank
    rw [isCommentLine, blank]
    rfl
  · rw [isMarkerLine, splitComment_of_blank blank]
    rfl
  · rw [opensCode, splitComment_of_blank blank]
    rfl

theorem plain_of_closes (closed : closes first line = true) :
    isCommentLine line = false ∧ isMarkerLine line = false := by
  rw [isCommentLine, isMarkerLine, trim_of_closes closed]
  decide

/-- A line that says something is as deep as the white space in front of it, four characters for each level. -/
theorem length_margin (filled : isBlankLine line = false) (spoken : isCommentLine line = false)
    (deep : numIndents line = .ok indents) :
    (margin line).length = indents * spacesPerIndent ∧ indents ≤ maxIndents ∧ '\t' ∉ margin line := by
  have plain : ¬((trimStart line).isEmpty || (after? ['/', '/'] (trimStart line)).isSome) = true := by
    rw [Bool.or_eq_true, List.isEmpty_iff, not_or]
    constructor
    · intro empty
      rw [isBlankLine, trim, empty] at filled
      cases filled
    · intro found
      obtain ⟨behind, found⟩ := Option.isSome_iff_exists.mp found
      have starts : trimStart line = '/' :: '/' :: behind := after?_eq_some found
      rw [isCommentLine, trim, starts, trimEnd_cons (by decide), trimEnd_cons (by decide)] at spoken
      cases spoken
  rw [numIndents] at deep
  dsimp only at deep
  rw [if_neg plain] at deep
  split at deep
  · cases deep
  · next untabbed =>
      split at deep
      · cases deep
      · next even =>
          split at deep
          · cases deep
          · next bounded =>
              obtain rfl := Except.ok.inj deep
              rw [← margin] at untabbed even bounded ⊢
              have whole := Nat.div_mul_cancel (Nat.dvd_of_mod_eq_zero (Decidable.not_not.mp even))
              exact ⟨whole.symm, Nat.le_of_not_lt bounded, fun tab => untabbed (List.contains_iff_mem.mpr tab)⟩

/-- Only a line without a code block is left whole. -/
theorem splitCode_cases (body : Text) :
    (Step.splitCode body).opensCode = (body.getLast? = some '{' : Bool) ∧
      ((Step.splitCode body).codeBlock = none → (Step.splitCode body).head = body) := by
  rw [Step.splitCode]
  split
  · next opens => exact ⟨(decide_eq_true opens).symm, fun absent => by cases absent⟩
  · next closed =>
      have closed : (body.getLast? = some '{' : Bool) = false := decide_eq_false closed
      split
      · split
        · exact ⟨closed.symm, fun absent => by cases absent⟩
        · exact ⟨closed.symm, fun _ => rfl⟩
      · exact ⟨closed.symm, fun _ => rfl⟩

theorem parseContent_cases {body : Text} {content : StepContent} {opens : Bool}
    (read : Step.parseContent body = .ok (content, opens)) :
    (content.text.isEmpty && content.identifiers.isSequential) = (body = ['.', '.'] : Bool) ∧
      opens = (body.getLast? = some '{' : Bool) := by
  obtain ⟨opening, whole⟩ := splitCode_cases body
  obtain ⟨dots, codeless, rfl, rfl⟩ | ⟨spoken, accepted, rfl⟩ := Step.accepted_of_parseContent read
  · have same : body = ['.', '.'] := (whole codeless).symm.trans dots
    rw [same]
    decide
  · have different : body ≠ ['.', '.'] := by
      rintro rfl
      exact spoken rfl
    rw [accepted.filled]
    exact ⟨(decide_eq_false different).symm, opening⟩

theorem parseLine_cases (read : Step.parseLine line filename number = .ok parsed) :
    parsed.step.isMarker = isMarkerLine line ∧ parsed.opensCode = opensCode line ∧
      parsed.step.lineNumber = number := by
  obtain ⟨marker, opening⟩ := parseContent_cases (Step.parseContent_of_parseLine read)
  refine ⟨marker, opening, ?_⟩
  simp only [Step.parseLine] at read
  split at read <;> cases read
  rfl

end Lines

section Places

variable (source : List Text)

def lineAt (index : Nat) : Text := source.getD index []

/-- The line that opened the code block which a line stands in, or closes. -/
def opener : Nat → Option Nat
  | 0 => none
  | index + 1 =>
      match opener index with
      | some first => if closes (lineAt source first) (lineAt source index) then none else some first
      | none => if opensCode (lineAt source index) then some index else none

/-- Whether a line is read by itself: as a step, or as a marker. -/
def isRead (index : Nat) : Bool :=
  (opener source index).isNone && !isBlankLine (lineAt source index) &&
    !isCommentLine (lineAt source index)

/-- The code below the line that opens it. -/
def codeBelow (index : Nat) : Text :=
  join ['\n'] ((source.drop (index + 1)).takeWhile fun line => !closes (lineAt source index) line)

/-- `line` is what line `index` says, with the code block that it opens. -/
structure Reads (filename : Option Text) (index : Nat) (line : Line) : Prop where
  indents : numIndents (lineAt source index) = .ok line.indents
  step : ∃ parsed, Step.parseLine (lineAt source index) filename (index + 1) = .ok parsed ∧
    line.step =
      if opensCode (lineAt source index) then
        { parsed.step with codeBlock := some (codeBelow source index) }
      else parsed.step

/-- `next` comes behind line `index`, and behind the code block that it opens. -/
def Follows (index next : Nat) : Prop :=
  if opensCode (lineAt source index) then
    ∃ last, next = last + 1 ∧ index < last ∧ last < source.length ∧
      closes (lineAt source index) (lineAt source last) = true ∧
      ∀ inner, index < inner → inner < last →
        closes (lineAt source index) (lineAt source inner) = false
  else next = index + 1

/-- What the scanner gives for the lines from one on that is in no code block. -/
inductive Scans (filename : Option Text) : Nat → List Entry → Prop
  | done : Scans filename source.length []
  | comment {index : Nat} {entries : List Entry} (inside : index < source.length)
      (comment : isCommentLine (lineAt source index) = true)
      (rest : Scans filename (index + 1) entries) : Scans filename index entries
  | blank {index : Nat} {entries : List Entry} (inside : index < source.length)
      (blank : isBlankLine (lineAt source index) = true)
      (rest : Scans filename (index + 1) entries) : Scans filename index (.blank :: entries)
  | line {index next : Nat} {line : Line} {entries : List Entry} (inside : index < source.length)
      (filled : isBlankLine (lineAt source index) = false)
      (spoken : isCommentLine (lineAt source index) = false) (reads : Reads source filename index line)
      (follows : Follows source index next) (rest : Scans filename next entries) :
      Scans filename index (.line line (opensCode (lineAt source index)) :: entries)

end Places

variable {source : List Text} {filename : Option Text} {index next : Nat} {line : Line}

theorem Reads.lineNumber (reads : Reads source filename index line) :
    line.step.lineNumber = index + 1 := by
  obtain ⟨parsed, read, step⟩ := reads.step
  rw [step]
  split
  · exact (parseLine_cases read).2.2
  · exact (parseLine_cases read).2.2

theorem Reads.isMarker (reads : Reads source filename index line) :
    line.step.isMarker = isMarkerLine (lineAt source index) := by
  obtain ⟨parsed, read, step⟩ := reads.step
  rw [step]
  split
  · exact (parseLine_cases read).1
  · exact (parseLine_cases read).1

theorem Follows.lt (follows : Follows source index next) : index < next := by
  rw [Follows] at follows
  split at follows
  · obtain ⟨last, rfl, behind, -⟩ := follows
    exact Nat.lt_succ_of_lt behind
  · exact follows ▸ Nat.lt_succ_self index

theorem Follows.opener_between (follows : Follows source index next)
    (outside : opener source index = none) {inner : Nat} (behind : index < inner)
    (before : inner < next) : opener source inner = some index := by
  rw [Follows] at follows
  split at follows
  · next opens =>
      obtain ⟨last, rfl, -, -, -, body⟩ := follows
      induction inner with
      | zero => cases behind
      | succ inner ih =>
          rw [opener]
          rcases Nat.eq_or_lt_of_le (Nat.le_of_lt_succ behind) with rfl | later
          · rw [outside]
            exact if_pos opens
          · rw [ih later (Nat.lt_of_succ_lt before)]
            exact if_neg (by simp [body inner later (Nat.lt_of_succ_lt_succ before)])
  · rw [follows] at before
    exact absurd behind (Nat.not_lt_of_le (Nat.le_of_lt_succ before))

theorem Follows.opener_eq (follows : Follows source index next)
    (outside : opener source index = none) : opener source next = none := by
  have between {inner : Nat} (behind : index < inner) (before : inner < next) :
      opener source inner = some index := follows.opener_between outside behind before
  rw [Follows] at follows
  split at follows
  · obtain ⟨last, rfl, behind, -, closed, -⟩ := follows
    rw [opener, between behind (Nat.lt_succ_self last)]
    exact if_pos closed
  · next straight =>
      rw [follows, opener, outside]
      exact if_neg straight

theorem of_drop_eq_cons {text : Text} {rest : List Text} (dropped : source.drop index = text :: rest) :
    index < source.length ∧ lineAt source index = text ∧ source.drop (index + 1) = rest := by
  refine ⟨?_, ?_, ?_⟩
  · apply Nat.lt_of_not_le
    intro beyond
    rw [List.drop_eq_nil_of_le beyond] at dropped
    cases dropped
  · have found : source[index]? = some text := by
      rw [← List.head?_drop, dropped]
      rfl
    rw [lineAt, List.getD_eq_getElem?_getD, found]
    rfl
  · rw [← List.drop_drop, dropped]
    rfl

/-- The line that opened a code block, with the code of the block up to a brace in the lines below. -/
def OpenCode.closeBefore (code : OpenCode) (below : List Text) : Line :=
  { code with
    code := code.code ++ below.takeWhile (codeLine code.opener.indents · ≠ CodeLine.closer) }.close

/-- What the scanner gives from a line on: one entry more if that line stands in a code block. -/
def Finishes (source : List Text) (filename : Option Text) (index : Nat) (entries : List Entry) :
    Option OpenCode → Prop
  | none => Scans source filename index entries
  | some code => ∃ last further, index ≤ last ∧ last < source.length ∧
      codeLine code.opener.indents (lineAt source last) = .closer ∧
      (∀ inner, index ≤ inner → inner < last →
        codeLine code.opener.indents (lineAt source inner) ≠ .closer) ∧
      entries = .line (code.closeBefore (source.drop index)) true :: further ∧
      Scans source filename (last + 1) further

theorem readLine_cases {read : Line} {opens : Bool} {text : Text}
    (found : readLine filename (index + 1) text = .ok (read, opens)) :
    numIndents text = .ok read.indents ∧ ∃ parsed,
      Step.parseLine text filename (index + 1) = .ok parsed ∧ read.step = parsed.step ∧
        opens = opensCode text := by
  rw [readLine] at found
  cases deep : numIndents text with
  | error fault =>
      rw [deep] at found
      cases found
  | ok indents =>
      rw [deep] at found
      cases parsing : Step.parseLine text filename (index + 1) with
      | error error =>
          rw [parsing] at found
          cases found
      | ok parsed =>
          rw [parsing] at found
          obtain ⟨rfl, rfl⟩ := Prod.mk.inj (Except.ok.inj found)
          exact ⟨rfl, parsed, rfl, rfl, (parseLine_cases parsing).2.1⟩

theorem closeBefore_cons {code : OpenCode} {text : Text} {rest : List Text} :
    code.closeBefore (text :: rest) =
      if codeLine code.opener.indents text = .closer then code.close
      else { code with code := code.code ++ [text] }.closeBefore rest := by
  unfold OpenCode.closeBefore
  split
  · next closer => simp [closer]
  · next other => simp [other]

theorem Finishes.body {code : OpenCode} {text : Text} {entries : List Entry}
    (here : lineAt source index = text) (inside : source.drop index = text :: source.drop (index + 1))
    (body : codeLine code.opener.indents text ≠ .closer)
    (finishes : Finishes source filename (index + 1) entries
      (some { code with code := code.code ++ [text] })) :
    Finishes source filename index entries (some code) := by
  obtain ⟨last, further, behind, bounded, closed, before, same, scans⟩ := finishes
  refine ⟨last, further, Nat.le_of_lt behind, bounded, closed, ?_, ?_, scans⟩
  · intro inner after earlier
    rcases Nat.eq_or_lt_of_le after with rfl | later
    · rw [here]
      exact body
    · exact before inner later earlier
  · rw [same, inside, closeBefore_cons, if_neg body]

theorem Finishes.opened {text : Text} {read : Line} {entries : List Entry}
    (inside : index < source.length) (here : lineAt source index = text)
    (filled : isBlankLine text = false) (spoken : isCommentLine text = false)
    (found : readLine filename (index + 1) text = .ok (read, true))
    (finishes : Finishes source filename (index + 1) entries (some { opener := read })) :
    Scans source filename index entries := by
  subst here
  obtain ⟨deep, parsed, parsing, step, opens⟩ := readLine_cases found
  obtain ⟨last, further, behind, bounded, closed, before, rfl, scans⟩ := finishes
  have depth_eq : depth (lineAt source index) = read.indents := by rw [depth, deep]; rfl
  have closes_eq (line : Text) :
      closes (lineAt source index) line = (codeLine read.indents line = .closer : Bool) := by
    rw [closes, depth_eq]
  have follows : Follows source index (last + 1) := by
    rw [Follows, if_pos opens.symm]
    refine ⟨last, rfl, behind, bounded, ?_, ?_⟩
    · rw [closes_eq]
      exact decide_eq_true closed
    · intro inner after earlier
      rw [closes_eq]
      exact decide_eq_false (before inner after earlier)
  have reads : Reads source filename index
      (OpenCode.closeBefore { opener := read } (source.drop (index + 1))) := by
    refine ⟨deep, parsed, parsing, ?_⟩
    rw [if_pos opens.symm, ← step, codeBelow]
    simp only [OpenCode.closeBefore, OpenCode.close, List.nil_append, closes_eq, decide_not]
  have scanned := Scans.line inside filled spoken reads follows scans
  rwa [← opens] at scanned

theorem Scans.straight {text : Text} {read : Line} {entries : List Entry}
    (inside : index < source.length) (here : lineAt source index = text)
    (filled : isBlankLine text = false) (spoken : isCommentLine text = false)
    (found : readLine filename (index + 1) text = .ok (read, false))
    (rest : Scans source filename (index + 1) entries) :
    Scans source filename index (.line read false :: entries) := by
  subst here
  obtain ⟨deep, parsed, parsing, step, opens⟩ := readLine_cases found
  have closed : ¬opensCode (lineAt source index) = true := Bool.eq_false_iff.mp opens.symm
  have reads : Reads source filename index read := by
    refine ⟨deep, parsed, parsing, ?_⟩
    rw [if_neg closed, step]
  have follows : Follows source index (index + 1) := by
    rw [Follows, if_neg closed]
  have scanned := Scans.line inside filled spoken reads follows rest
  rwa [← opens] at scanned

theorem cons_eq_ok {entry : Entry} {further : Except TreeError (List Entry)} {entries : List Entry}
    (scanned : (do return entry :: (← further)) = .ok entries) :
    ∃ rest, further = .ok rest ∧ entries = entry :: rest := by
  cases further with
  | error error => cases scanned
  | ok rest =>
      cases scanned
      exact ⟨rest, rfl, rfl⟩

theorem Finishes.closed {code : OpenCode} {text : Text} {entries : List Entry}
    (bounded : index < source.length) (here : lineAt source index = text)
    (inside : source.drop index = text :: source.drop (index + 1))
    (closer : codeLine code.opener.indents text = .closer)
    (scans : Scans source filename (index + 1) entries) :
    Finishes source filename index (.line code.close true :: entries) (some code) := by
  refine ⟨index, entries, Nat.le_refl _, bounded, here ▸ closer, ?_, ?_, scans⟩
  · intro inner after before
    exact absurd before (Nat.not_lt_of_le after)
  · rw [inside, closeBefore_cons, if_pos closer]

theorem finishes_of_scanFrom {rest : List Text} {code : Option OpenCode} {entries : List Entry}
    (dropped : source.drop index = rest) (inside : index ≤ source.length)
    (scanned : scanFrom filename (index + 1) code rest = .ok entries) :
    Finishes source filename index entries code := by
  induction rest generalizing index code entries with
  | nil =>
      obtain rfl : index = source.length := Nat.le_antisymm inside (List.drop_eq_nil_iff.mp dropped)
      cases code with
      | none =>
          cases scanned
          exact .done
      | some code => cases scanned
  | cons text rest ih =>
      obtain ⟨bounded, here, later⟩ := of_drop_eq_cons dropped
      cases code with
      | some code =>
          have below : source.drop index = text :: source.drop (index + 1) := later ▸ dropped
          rw [scanFrom] at scanned
          split at scanned
          · next closer =>
              obtain ⟨further, read, rfl⟩ := cons_eq_ok scanned
              exact Finishes.closed bounded here below closer (ih later bounded read)
          · cases scanned
          · next body => exact (ih later bounded scanned).body here below (by simp [body])
      | none =>
          rw [scanFrom] at scanned
          dsimp only at scanned
          split at scanned
          · next blank =>
              obtain ⟨further, read, rfl⟩ := cons_eq_ok scanned
              exact Scans.blank bounded (here ▸ blank) (ih later bounded read)
          · next filled =>
              have filled : isBlankLine text = false := Bool.eq_false_iff.mpr filled
              split at scanned
              · next comment =>
                  exact Scans.comment bounded (here ▸ comment) (ih later bounded scanned)
              · next spoken =>
                  have spoken : isCommentLine text = false := Bool.eq_false_iff.mpr spoken
                  cases found : readLine filename (index + 1) text with
                  | error error =>
                      rw [found] at scanned
                      cases scanned
                  | ok result =>
                      obtain ⟨read, opens⟩ := result
                      rw [found] at scanned
                      cases opens with
                      | true =>
                          exact Finishes.opened bounded here filled spoken found
                            (ih later bounded scanned)
                      | false =>
                          obtain ⟨further, read, rfl⟩ := cons_eq_ok scanned
                          exact Scans.straight bounded here filled spoken found
                            (ih later bounded read)

theorem scans_of_scan {text : Text} {entries : List Entry}
    (scanned : scan filename text = .ok entries) : Scans (lines text) filename 0 entries := by
  have finishes : Finishes (lines text) filename 0 entries none :=
    finishes_of_scanFrom rfl (Nat.zero_le _) scanned
  exact finishes

end TestTree.Source
