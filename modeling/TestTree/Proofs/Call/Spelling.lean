import TestTree.Proofs.Call.Inputs

/-!
How a name may be spelled. A name is a row of words and inputs, each with white space in front of it or without. Its
canonical form has the lower-cased words and a placeholder for each input, one space apart, so spellings that differ
in case, in the amount of white space or in what the inputs hold refer to the same declaration.
-/
namespace TestTree

namespace CallName

open Text

/-- What stands between the quotes of one string. -/
inductive QuotedBody (quote : Char) : Text → Prop
  | nil : QuotedBody quote []
  | plain {c : Char} {rest : Text} (unescaped : c ≠ '\\') (inside : c ≠ quote)
      (behind : QuotedBody quote rest) : QuotedBody quote (c :: rest)
  | escaped {c : Char} {rest : Text} (behind : QuotedBody quote rest) : QuotedBody quote ('\\' :: c :: rest)

inductive InputForm : Text → Prop
  | string {quote : Char} {body : Text} (quotes : isQuote quote = true) (quoted : QuotedBody quote body) :
      InputForm (quote :: (body ++ [quote]))
  | reference {reference : Reference} (named : reference.name ≠ [])
      (plain : ∀ c ∈ reference.name, Reference.isBrace c = false) : InputForm reference.render
  | bracketed {content : Text} (plain : ']' ∉ content) : InputForm ('[' :: (content ++ [']']))

/-- What a word is made of: no white space, no quotes, no braces and no brackets. -/
def isWordPart (c : Char) : Bool :=
  !(isBlank c || isQuote c || Reference.isBrace c || c == '[' || c == ']')

inductive Segment
  | word (text : Text)
  | input (token : Text)

namespace Segment

def WellFormed : Segment → Prop
  | word text => text ≠ [] ∧ ∀ c ∈ text, isWordPart c = true
  | input token => InputForm token

def written : Segment → Text
  | word text => text
  | input token => token

def pieces : Segment → List Piece
  | word text => text.map .plain
  | input token => [.input token]

def input? : Segment → Option Text
  | word _ => none
  | input token => some token

end Segment

/-- A word or an input with the white space in front of it. -/
structure Spaced where
  gap : Text
  segment : Segment
  blank : ∀ c ∈ gap, isBlank c = true
  wellFormed : segment.WellFormed

/-- A name as it may be written. -/
structure Spelling where
  parts : List Spaced
  trailing : Text
  blank : ∀ c ∈ trailing, isBlank c = true

def Spelling.written (spelling : Spelling) : Text :=
  spelling.parts.flatMap (fun part => part.gap ++ part.segment.written) ++ spelling.trailing

def Spelling.tokens (spelling : Spelling) : List Text := spelling.parts.filterMap (·.segment.input?)

/-- Whether a word goes on, because the next one is not set apart from it. -/
def goesOn : List Spaced → Bool
  | ⟨[], .word _, _, _⟩ :: _ => true
  | _ => false

/-- Puts characters in front of the first word. -/
def lengthen (front : Text) : List Text → List Text
  | [] => [front]
  | word :: others => (front ++ word) :: others

/-- The words of a name as they are compared. -/
def spoken : List Spaced → List Text
  | [] => []
  | ⟨_, .input _, _, _⟩ :: rest => placeholder :: spoken rest
  | ⟨_, .word text, _, _⟩ :: rest =>
      if goesOn rest then lengthen (lower text) (spoken rest) else lower text :: spoken rest

/-- Names with the same words up to case, and with inputs in the same places. -/
inductive Alike : List Spaced → List Spaced → Prop
  | nil : Alike [] []
  | input {part other : Spaced} {rest others : List Spaced} {token twin : Text}
      (isInput : part.segment = .input token) (isInput' : other.segment = .input twin)
      (behind : Alike rest others) : Alike (part :: rest) (other :: others)
  | word {part other : Spaced} {rest others : List Spaced} {text twin : Text}
      (isWord : part.segment = .word text) (isWord' : other.segment = .word twin)
      (same : lower text = lower twin) (joins : goesOn rest = goesOn others)
      (behind : Alike rest others) : Alike (part :: rest) (other :: others)

theorem Alike.spoken_eq {parts others : List Spaced} (alike : Alike parts others) :
    spoken parts = spoken others := by
  induction alike with
  | nil => rfl
  | @input part other rest others token twin isInput isInput' behind ih =>
      obtain ⟨gap, _, blank, formed⟩ := part
      obtain ⟨gap', _, blank', formed'⟩ := other
      obtain rfl := isInput
      obtain rfl := isInput'
      rw [spoken, spoken, ih]
  | @word part other rest others text twin isWord isWord' same joins behind ih =>
      obtain ⟨gap, _, blank, formed⟩ := part
      obtain ⟨gap', _, blank', formed'⟩ := other
      obtain rfl := isWord
      obtain rfl := isWord'
      rw [spoken, spoken, ih, same, joins]

section Reading

variable {c : Char} {text token rest : Text}

theorem takeQuotedBody_append {quote : Char} {body : Text} (quotes : isQuote quote = true)
    (quoted : QuotedBody quote body) (rest : Text) :
    ∃ value, takeQuotedBody quote (body ++ quote :: rest) = some (value, rest) := by
  have unescaped : quote ≠ '\\' := by
    rintro rfl
    exact absurd quotes (by decide)
  induction quoted with
  | nil => exact ⟨[], by rw [List.nil_append, takeQuotedBody.eq_def]; simp [unescaped]⟩
  | @plain c body plain inside behind ih =>
      obtain ⟨value, taken⟩ := ih
      refine ⟨c :: value, ?_⟩
      rw [List.cons_append, takeQuotedBody.eq_def]
      simp [plain, inside, taken]
  | @escaped c body behind ih =>
      obtain ⟨value, taken⟩ := ih
      exact ⟨c :: value, by simp [takeQuotedBody, taken]⟩

/-- A closer is found where it first stands. -/
theorem splitBehind_append (closer : Text) (absent : c ∉ text) (rest : Text) :
    splitBehind (c :: closer) (text ++ (c :: closer ++ rest)) = some (text ++ c :: closer, rest) := by
  induction text with
  | nil =>
      rw [List.nil_append, List.cons_append, splitBehind, ← List.cons_append, after?_append]
      rfl
  | cons d text ih =>
      have foreign : c ≠ d := fun same => absent (same ▸ .head _)
      rw [List.cons_append, splitBehind, ih fun listed => absent (.tail _ listed)]
      simp [after?, foreign]

theorem ne_of_plain {name : Text} (plain : ∀ c ∈ name, Reference.isBrace c = false) :
    '{' ∉ name ∧ '}' ∉ name :=
  ⟨fun listed => absurd (plain _ listed) (by decide), fun listed => absurd (plain _ listed) (by decide)⟩

theorem takeInput_render {reference : Reference} (named : reference.name ≠ [])
    (plain : ∀ c ∈ reference.name, Reference.isBrace c = false) (rest : Text) :
    takeInput (reference.render ++ rest) = some (reference.render, rest) := by
  obtain ⟨opening, closing⟩ := ne_of_plain plain
  obtain ⟨first, tail, name⟩ := List.exists_cons_of_ne_nil named
  rw [name] at opening closing
  rw [Reference.render, name]
  split
  · have found := splitBehind_append ['}']
      (show '}' ∉ '{' :: '{' :: first :: tail by simpa using closing) rest
    simpa [takeInput, isQuote] using found
  · have found := splitBehind_append [] (show '}' ∉ '{' :: first :: tail by simpa using closing) rest
    have single : first ≠ '{' := fun same => opening (same ▸ .head _)
    simpa [takeInput, isQuote, single] using found

theorem takeInput_append (form : InputForm token) (rest : Text) :
    takeInput (token ++ rest) = some (token, rest) := by
  cases form with
  | @string quote body quotes quoted =>
      obtain ⟨value, taken⟩ := takeQuotedBody_append quotes quoted rest
      have read : takeQuoted (quote :: (body ++ [quote]) ++ rest) = some (value, rest) := by
        simp [takeQuoted, quotes, taken]
      rw [List.cons_append, takeInput, if_pos quotes, ← List.cons_append, read, Option.map_some]
      dsimp only
      rw [List.length_append, Nat.add_sub_cancel, List.take_left]
  | @reference reference named plain => exact takeInput_render named plain rest
  | @bracketed content plain =>
      have found := splitBehind_append [] (show ']' ∉ '[' :: content by simpa using plain) rest
      simpa [takeInput, isQuote] using found

/-- No input starts with white space or within a word. -/
theorem takeInput_eq_none (plain : isBlank c = true ∨ isWordPart c = true) (rest : Text) :
    takeInput (c :: rest) = none := by
  have apart : isQuote c = false ∧ c ≠ '{' ∧ c ≠ '[' := by
    rcases plain with blank | part
    · have foreign (d : Char) (filled : isBlank d = false) : c ≠ d := by
        rintro rfl
        exact Bool.false_ne_true (filled.symm.trans blank)
      exact ⟨by simp [isQuote, foreign '\'' (by decide), foreign '"' (by decide)],
        foreign '{' (by decide), foreign '[' (by decide)⟩
    · simp [isWordPart, Reference.isBrace] at part
      simp [part]
  simp [takeInput, apart]

theorem pieces_plain_append {front : Text} (plain : ∀ c ∈ front, isBlank c = true ∨ isWordPart c = true)
    (rest : Text) : pieces (front ++ rest) = front.map .plain ++ pieces rest := by
  induction front with
  | nil => rfl
  | cons c front ih =>
      rw [List.cons_append, pieces_cons (takeInput_eq_none (plain c (.head _)) _),
        ih fun d listed => plain d (.tail _ listed)]
      rfl

theorem pieces_segment {segment : Segment} (wellFormed : segment.WellFormed) (rest : Text) :
    pieces (segment.written ++ rest) = segment.pieces ++ pieces rest := by
  cases segment with
  | word text => exact pieces_plain_append (fun c listed => .inr (wellFormed.2 c listed)) rest
  | input token => exact pieces_of_takeInput (takeInput_append wellFormed rest)

/-- The pieces of the parts of a name and of the white space behind them. -/
def row (parts : List Spaced) (trailing : Text) : List Piece :=
  parts.flatMap (fun part => part.gap.map .plain ++ part.segment.pieces) ++ trailing.map .plain

/-- A spelling is cut into the words and inputs that it is made of. -/
theorem pieces_written (spelling : Spelling) :
    pieces spelling.written = row spelling.parts spelling.trailing := by
  obtain ⟨parts, trailing, blank⟩ := spelling
  rw [Spelling.written, row]
  induction parts with
  | nil =>
      have cut := pieces_plain_append (fun c listed => .inl (blank c listed)) []
      rw [List.append_nil] at cut
      exact cut.trans (by rw [pieces, List.append_nil]; rfl)
  | cons part rest ih =>
      simp only [List.flatMap_cons, List.append_assoc] at ih ⊢
      rw [pieces_plain_append (fun c listed => .inl (part.blank c listed)), pieces_segment part.wellFormed, ih]

end Reading

section Speaking

variable {word text : Text}

theorem words_filled_of_blank (some : word ≠ []) (filled : ∀ c ∈ word, isBlank c = false)
    (apart : ∀ c ∈ text.head?, isBlank c = true) : words (word ++ text) = word :: words text := by
  cases text with
  | nil =>
      rw [List.append_nil, words_filled some filled]
      rfl
  | cons c rest =>
      have blank : isBlank c = true := apart c rfl
      rw [words_filled_append some filled blank, words_cons_blank blank]

theorem words_filled_of_filled {c : Char} (filled : ∀ c ∈ word, isBlank c = false) (goes : isBlank c = false)
    (text : Text) : words (word ++ c :: text) = lengthen word (words (c :: text)) := by
  obtain ⟨first, others, cut⟩ := List.exists_cons_of_ne_nil (pieces_ne_nil isBlank text)
  have alone : ∀ d ∈ [c], isBlank d = false := by simpa using goes
  have whole : Text.pieces isBlank (c :: text) = (c :: first) :: others := pieces_append_filled alone cut
  rw [words, pieces_append_filled filled whole, words, whole]
  simp [lengthen]

/-- A word is nothing that lower-casing could make white space of. -/
theorem filled_of_isWordPart (parts : ∀ c ∈ word, isWordPart c = true) : ∀ c ∈ word, isBlank c = false := by
  intro c listed
  have part := parts c listed
  simp only [isWordPart, Bool.not_eq_true', Bool.or_eq_false_iff] at part
  exact part.1.1.1.1

theorem canonical_plain (text : Text) : (text.map Piece.plain).flatMap Piece.canonical = lower text := by
  rw [List.flatMap_map]
  rfl

/-- The text whose words are compared. -/
def sounded (parts : List Spaced) (trailing : Text) : Text := (row parts trailing).flatMap Piece.canonical

theorem sounded_cons (part : Spaced) (rest : List Spaced) (trailing : Text) :
    sounded (part :: rest) trailing =
      part.gap ++ (part.segment.pieces.flatMap Piece.canonical ++ sounded rest trailing) := by
  rw [sounded, row, List.flatMap_cons, List.append_assoc, List.append_assoc, List.flatMap_append,
    canonical_plain, lower_blanks part.blank, List.flatMap_append]
  rfl

theorem sounded_nil {trailing : Text} (blank : ∀ c ∈ trailing, isBlank c = true) :
    sounded [] trailing = trailing :=
  (canonical_plain trailing).trans (lower_blanks blank)

/-- The text goes on with a character of a word exactly if the name does. -/
theorem head?_sounded (parts : List Spaced) {trailing : Text} (blank : ∀ c ∈ trailing, isBlank c = true) :
    (goesOn parts = true → ∃ c rest, sounded parts trailing = c :: rest ∧ isBlank c = false) ∧
      (goesOn parts = false → ∀ c ∈ (sounded parts trailing).head?, isBlank c = true) := by
  cases parts with
  | nil =>
      refine ⟨fun goes => (by cases goes), fun _ c first => ?_⟩
      rw [sounded_nil blank] at first
      exact blank c (List.mem_of_mem_head? first)
  | cons part rest =>
      rw [sounded_cons]
      obtain ⟨_ | ⟨c, gap⟩, segment, gapBlank, formed⟩ := part
      · cases segment with
        | word text =>
            refine ⟨fun _ => ?_, fun stays => (by cases stays)⟩
            obtain ⟨c, heard, lowered⟩ := List.exists_cons_of_ne_nil fun empty => formed.1 (lower_eq_nil empty)
            have filled : isBlank c = false :=
              filled_lower (filled_of_isWordPart formed.2) c (lowered ▸ .head _)
            refine ⟨c, heard ++ sounded rest trailing, ?_, filled⟩
            dsimp only [Segment.pieces]
            rw [canonical_plain, lowered]
            rfl
        | input token =>
            refine ⟨fun goes => (by cases goes), fun _ c first => ?_⟩
            obtain rfl : ' ' = c := Option.some.inj first
            decide
      · refine ⟨fun goes => (by cases goes), fun _ d first => ?_⟩
        obtain rfl : c = d := Option.some.inj first
        exact gapBlank c (.head _)

theorem words_sounded (parts : List Spaced) {trailing : Text} (blank : ∀ c ∈ trailing, isBlank c = true) :
    words (sounded parts trailing) = spoken parts := by
  induction parts with
  | nil =>
      rw [sounded_nil blank, ← List.append_nil trailing, words_append_blanks blank]
      rfl
  | cons part rest ih =>
      rw [sounded_cons, words_append_blanks part.blank]
      obtain ⟨gap, segment, gapBlank, formed⟩ := part
      obtain ⟨goes, stays⟩ := head?_sounded rest blank
      cases segment with
      | word text =>
          have filled : ∀ c ∈ lower text, isBlank c = false := filled_lower (filled_of_isWordPart formed.2)
          have heard : lower text ≠ [] := fun empty => formed.1 (lower_eq_nil empty)
          rw [spoken, ← ih]
          dsimp only [Segment.pieces]
          rw [canonical_plain]
          split
          · next on =>
            obtain ⟨c, behind, whole, goes⟩ := goes on
            rw [whole, words_filled_of_filled filled goes]
          · next off => exact words_filled_of_blank heard filled (stays (by simpa using off))
      | input token =>
          rw [spoken, ← ih]
          exact (words_cons_blank (by decide) _).trans (words_placeholder _)

end Speaking

theorem canonical_written (spelling : Spelling) :
    canonical spelling.written = join [' '] (spoken spelling.parts) := by
  rw [canonical, pieces_written, collapse]
  exact congrArg _ (words_sounded spelling.parts spelling.blank)

theorem inputs_written (spelling : Spelling) : inputs spelling.written = spelling.tokens := by
  obtain ⟨parts, trailing, blank⟩ := spelling
  have plain (text : Text) (behind : List Piece) :
      (text.map Piece.plain ++ behind).filterMap Piece.input? = behind.filterMap Piece.input? := by
    rw [List.filterMap_append, List.filterMap_map]
    simp [Function.comp_def, Piece.input?]
  rw [inputs_eq, pieces_written, Spelling.tokens, row]
  induction parts with
  | nil => simpa using plain trailing []
  | cons part rest ih =>
      rw [List.flatMap_cons, List.append_assoc, List.append_assoc, plain, List.filterMap_append, ih]
      obtain ⟨gap, segment, gapBlank, formed⟩ := part
      cases segment with
      | word text => simpa [Segment.pieces, Segment.input?] using plain text []
      | input token => rfl

/-- A spelling is read as its words and its inputs, and one like it refers to the same declaration everywhere. -/
theorem canonical_of_spelling (spelling : Spelling) :
    canonical spelling.written = join [' '] (spoken spelling.parts) ∧
      inputs spelling.written = spelling.tokens ∧
      ∀ other : Spelling, Alike spelling.parts other.parts →
        ∀ (tree : Tree) (path : List Frame) (declaration : NodeId),
          (tree.resolveText spelling.written path = .ok declaration ↔
            tree.resolveText other.written path = .ok declaration) ∧
          ∀ id twin, (tree.node id).step.callText = spelling.written →
            (tree.node twin).step.callText = other.written → tree.siblings id = tree.siblings twin →
            (tree.resolve id path = .ok declaration ↔ tree.resolve twin path = .ok declaration) := by
  refine ⟨canonical_written spelling, inputs_written spelling, fun other alike tree path declaration => ?_⟩
  have same : canonical spelling.written = canonical other.written := by
    rw [canonical_written, canonical_written, alike.spoken_eq]
  have found (own : List NodeId) : tree.findDeclaration spelling.written own path =
      tree.findDeclaration other.written own path := by
    rw [Tree.findDeclaration, Tree.findDeclaration, same]
  constructor
  · rw [Tree.resolveText, Tree.resolveText, found]
    cases tree.findDeclaration other.written [] path <;> simp [throw, throwThe, MonadExceptOf.throw]
  · intro id twin first second beside
    rw [Tree.resolve, Tree.resolve, first, second, beside, found]
    cases tree.findDeclaration other.written (tree.siblings twin) path <;>
      simp [throw, throwThe, MonadExceptOf.throw]

/-- Two calls of one function, the second with a letter that only its lower case has in common with the first. -/
def library : Tree :=
  .grown "Book for 'it\\'s'\n\nBOO\u212A\tfor[1st 'tab'] \n\n* book For \x7b\x7bx\x7d\x7d\n    A -"

def softly : Spelling where
  parts := [⟨[], .word "Book".toList, List.forall_mem_nil _, by decide,
      List.all_eq_true.mp (by decide +kernel)⟩,
    ⟨[' '], .word "for".toList, List.forall_mem_singleton.mpr rfl, by decide,
      List.all_eq_true.mp (by decide +kernel)⟩,
    ⟨[' '], .input "'it\\'s'".toList, List.forall_mem_singleton.mpr rfl,
      @InputForm.string '\'' "it\\'s".toList rfl (.plain (by decide) (by decide)
        (.plain (by decide) (by decide) (.escaped (.plain (by decide) (by decide) .nil))))⟩]
  trailing := []
  blank := List.forall_mem_nil _

def loudly : Spelling where
  parts := [⟨[], .word "BOO\u212A".toList, List.forall_mem_nil _, by decide,
      List.all_eq_true.mp (by decide +kernel)⟩,
    ⟨['\t'], .word "for".toList, List.forall_mem_singleton.mpr rfl, by decide,
      List.all_eq_true.mp (by decide +kernel)⟩,
    ⟨[], .input "[1st 'tab']".toList, List.forall_mem_nil _,
      @InputForm.bracketed "1st 'tab'".toList (by decide +kernel)⟩]
  trailing := []
  blank := List.forall_mem_nil _

theorem canonical_of_spelling_library :
    softly.written = "Book for 'it\\'s'".toList ∧ canonical softly.written = "book for \x7b\x7d".toList ∧
      inputs softly.written = ["'it\\'s'".toList] ∧ Alike softly.parts loudly.parts ∧
      (library.node 1).step.callText = softly.written ∧ (library.node 2).step.callText = loudly.written ∧
      library.resolve 1 [] = .ok 3 ∧ library.resolve 2 [] = .ok 3 := by
  have alike : Alike softly.parts loudly.parts :=
    .word rfl rfl (by decide +kernel) rfl (.word rfl rfl rfl rfl (.input rfl rfl .nil))
  have soft : (library.node 1).step.callText = softly.written := by decide +kernel
  have loud : (library.node 2).step.callText = loudly.written := by decide +kernel
  have beside : library.siblings 1 = library.siblings 2 := by decide +kernel
  have resolved : library.resolve 1 [] = .ok 3 := by decide +kernel
  obtain ⟨heard, read, refers⟩ := canonical_of_spelling softly
  have again := ((refers loudly alike library [] 3).2 1 2 soft loud beside).mp resolved
  exact ⟨rfl, heard.trans (by decide +kernel), read, alike, soft, loud, resolved, again⟩

end CallName

end TestTree
