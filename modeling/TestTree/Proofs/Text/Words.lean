import Mathlib.Data.List.DropRight
import TestTree.Text.Quoted

namespace TestTree.Text

section Words

variable {isBreak : Char → Bool} {c : Char} {text : Text}

theorem pieces_ne_nil (isBreak : Char → Bool) (text : Text) : pieces isBreak text ≠ [] := by
  cases text with
  | nil => exact List.cons_ne_nil _ _
  | cons c rest =>
      rw [pieces]
      split
      · exact List.cons_ne_nil _ _
      · split <;> exact List.cons_ne_nil _ _

/-- A break divides the pieces of a text. -/
theorem pieces_append (breaks : isBreak c = true) (before after : Text) :
    pieces isBreak (before ++ c :: after) = pieces isBreak before ++ pieces isBreak after := by
  induction before with
  | nil => simp only [List.nil_append, pieces, breaks, if_true, List.singleton_append]
  | cons d rest ih =>
      rw [List.cons_append, pieces, pieces, ih]
      split
      · rw [List.cons_append]
      · obtain ⟨first, others, same⟩ := List.exists_cons_of_ne_nil (pieces_ne_nil isBreak rest)
        rw [same, List.cons_append]
        rfl

theorem words_append (blank : isBlank c = true) (before after : Text) :
    words (before ++ c :: after) = words before ++ words after := by
  rw [words, pieces_append blank, List.filter_append]
  rfl

/-- The last piece ends where the text ends. -/
theorem getLast?_pieces (goes : isBreak c = false) (text : Text) :
    ∃ front, (pieces isBreak (text ++ [c])).getLast? = some (front ++ [c]) := by
  induction text with
  | nil => exact ⟨[], by simp [pieces, goes]⟩
  | cons d rest ih =>
      obtain ⟨front, last⟩ := ih
      obtain ⟨first, others, same⟩ := List.exists_cons_of_ne_nil (pieces_ne_nil isBreak (rest ++ [c]))
      rw [same] at last
      rw [List.cons_append, pieces, same]
      split
      · exact ⟨front, by rw [List.getLast?_cons_cons, last]⟩
      · cases others with
        | nil =>
            obtain rfl := Option.some.inj last
            exact ⟨d :: front, rfl⟩
        | cons second further =>
            rw [List.getLast?_cons_cons] at last
            exact ⟨front, by rw [List.getLast?_cons_cons, last]⟩

theorem getLast?_words (filled : isBlank c = false) (text : Text) :
    ∃ front, (words (text ++ [c])).getLast? = some (front ++ [c]) := by
  obtain ⟨front, last⟩ := getLast?_pieces filled text
  refine ⟨front, ?_⟩
  obtain ⟨others, same⟩ := List.getLast?_eq_some_iff.mp last
  rw [words, same, List.filter_append, List.filter_cons_of_pos (by simp)]
  simp

theorem words_ne_nil (filled : isBlank c = false) (text : Text) : words (c :: text) ≠ [] := by
  obtain ⟨first, others, same⟩ := List.exists_cons_of_ne_nil (pieces_ne_nil isBlank text)
  simp [words, pieces, filled, same]

theorem length_trimEnd_le (text : Text) : (trimEnd text).length ≤ text.length := by
  have shorter := (List.dropWhile_suffix isBlank (l := text.reverse)).length_le
  simpa [trimEnd] using shorter

/-- A text that trimming leaves alone starts with a character that is not white space. -/
theorem isBlank_head (trimmed : trim (c :: text) = c :: text) : isBlank c = false := by
  rw [Bool.eq_false_iff]
  intro blank
  have shorter : (trim (c :: text)).length ≤ text.length := by
    rw [trim, trimStart, List.dropWhile_cons_of_pos blank]
    exact Nat.le_trans (length_trimEnd_le _) (List.dropWhile_suffix isBlank).length_le
  rw [trimmed] at shorter
  exact Nat.not_succ_le_self text.length shorter

theorem trimEnd_concat {last : Char} (ends : isBlank last = false) (text : Text) :
    trimEnd (text ++ [last]) = text ++ [last] := by
  rw [trimEnd, List.reverse_concat, List.dropWhile_cons_of_neg (by simp [ends]),
    ← List.reverse_concat, List.reverse_reverse]

theorem trim_cons_concat {first last : Char} (starts : isBlank first = false)
    (ends : isBlank last = false) (text : Text) :
    trim (first :: (text ++ [last])) = first :: (text ++ [last]) := by
  have unchanged : trimStart (first :: (text ++ [last])) = first :: (text ++ [last]) := by
    rw [trimStart, List.dropWhile_cons_of_neg (by simp [starts])]
  rw [trim, unchanged, ← List.cons_append, trimEnd_concat ends]

theorem isBlank_of_isAllBlank (blank : isAllBlank text = true) : ∀ d ∈ text, isBlank d = true :=
  List.all_eq_true.mp blank

theorem isAllBlank_space : isAllBlank [' '] = true := rfl

theorem trimStart_cons (filled : isBlank c = false) (text : Text) : trimStart (c :: text) = c :: text :=
  List.dropWhile_cons_of_neg (by simp [filled])

theorem trimStart_blanks {gap : Text} (blank : ∀ d ∈ gap, isBlank d = true) (text : Text) :
    trimStart (gap ++ text) = trimStart text :=
  List.dropWhile_append_of_pos blank

/-- White space is taken off up to the first character that is none. -/
theorem trimStart_append (some : trimStart text ≠ []) (rest : Text) :
    trimStart (text ++ rest) = trimStart text ++ rest := by
  rw [trimStart, List.dropWhile_append, if_neg (by simpa [trimStart] using some), trimStart]

theorem exists_of_trimStart (some : trimStart text ≠ []) :
    ∃ first rest, trimStart text = first :: rest ∧ isBlank first = false := by
  obtain ⟨first, rest, same⟩ := List.exists_cons_of_ne_nil some
  have stops : isBlank ((trimStart text).head some) = false := List.head_dropWhile_not isBlank some
  exact ⟨first, rest, same, by simpa only [same, List.head_cons] using stops⟩

theorem trimStart_ne_nil (some : trim text ≠ []) : trimStart text ≠ [] := by
  intro empty
  rw [trim, empty] at some
  exact some rfl

theorem trimEnd_cons (filled : isBlank c = false) (text : Text) : trimEnd (c :: text) = c :: trimEnd text := by
  rw [trimEnd, List.reverse_cons, List.dropWhile_append]
  split
  · next empty =>
      rw [trimEnd, List.isEmpty_iff.mp empty, List.dropWhile_cons_of_neg (by simp [filled])]
      rfl
  · rw [List.reverse_concat, trimEnd]

theorem trimEnd_trimEnd (text : Text) : trimEnd (trimEnd text) = trimEnd text := by
  rw [trimEnd, trimEnd, List.reverse_reverse, List.dropWhile_idempotent]

/-- White space is taken off no further than to a character that is none. -/
theorem trimStart_append_cons (filled : isBlank c = false) (front rest : Text) :
    trimStart (front ++ c :: rest) = trimStart front ++ c :: rest := by
  rw [trimStart, List.dropWhile_append]
  split
  · next empty => rw [trimStart, List.isEmpty_iff.mp empty, List.nil_append, ← trimStart, trimStart_cons filled]
  · rfl

theorem trimEnd_append_cons (filled : isBlank c = false) (front rest : Text) :
    trimEnd (front ++ c :: rest) = front ++ c :: trimEnd rest := by
  have turned := trimStart_append_cons filled rest.reverse front.reverse
  rw [trimStart, trimStart] at turned
  simp [trimEnd, turned]

/-- A text that ends otherwise is trimmed at its start only. -/
theorem trim_concat (ends : isBlank c = false) (text : Text) : trim (text ++ [c]) = trimStart (text ++ [c]) := by
  rw [trim, trimStart_append_cons ends, trimEnd_concat ends]

theorem trim_cons_blank (blank : isBlank c = true) (text : Text) : trim (c :: text) = trim text := by
  rw [trim, trimStart, List.dropWhile_cons_of_pos blank, trim, trimStart]

theorem trimEnd_append_blank (blank : isBlank c = true) (text : Text) : trimEnd (text ++ [c]) = trimEnd text := by
  rw [trimEnd, List.reverse_concat, List.dropWhile_cons_of_pos blank, trimEnd]

theorem trim_append_blank (blank : isBlank c = true) (text : Text) : trim (text ++ [c]) = trim text := by
  rw [trim, trim, trimStart, List.dropWhile_append]
  split
  · next empty =>
      rw [trimStart, List.isEmpty_iff.mp empty, List.dropWhile_cons_of_pos blank]
      rfl
  · exact trimEnd_append_blank blank _

theorem trim_trimEnd (text : Text) : trim (trimEnd text) = trim text := by
  induction text using List.reverseRecOn with
  | nil => rfl
  | append_singleton text c ih =>
      cases blank : isBlank c with
      | false => rw [trimEnd_concat blank]
      | true => rw [trimEnd_append_blank blank, ih, trim_append_blank blank]

/-- The last word goes, and all white space around it. -/
theorem dropLastWord_append {word gap : Text} (some : word ≠ []) (filled : ∀ d ∈ word, isBlank d = false)
    (apart : gap ≠ []) (blank : ∀ d ∈ gap, isBlank d = true) (text : Text) :
    dropLastWord (text ++ (gap ++ word)) = trimEnd text := by
  obtain ⟨last, front, turned⟩ := List.exists_cons_of_ne_nil (List.reverse_ne_nil_iff.mpr some)
  obtain ⟨space, more, spaces⟩ := List.exists_cons_of_ne_nil (List.reverse_ne_nil_iff.mpr apart)
  have ends : ∀ d ∈ last :: front, isBlank d = false := fun d listed =>
    filled d (List.mem_reverse.mp (turned ▸ listed))
  have parts : ∀ d ∈ space :: more, isBlank d = true := fun d listed =>
    blank d (List.mem_reverse.mp (spaces ▸ listed))
  rw [dropLastWord, List.reverse_append, List.reverse_append, turned, spaces, List.append_assoc,
    List.cons_append, List.dropWhile_cons_of_neg (by simp [ends last (.head _)]), ← List.cons_append,
    List.dropWhile_append_of_pos fun d listed => by simp [ends d listed], List.cons_append,
    List.dropWhile_cons_of_neg (by simp [parts space (.head _)]), ← List.cons_append,
    List.dropWhile_append_of_pos parts, trimEnd]

theorem dropLastWord_trimEnd (text : Text) : dropLastWord (trimEnd text) = dropLastWord text := by
  rw [dropLastWord, dropLastWord, trimEnd, List.reverse_reverse, List.dropWhile_idempotent]

end Words

section Quotes

variable {needle text value rest : Text} {quote c : Char}

/-- A character that neither ends a text as a backslash does nor escapes the next one is no backslash. -/
theorem ne_backslash {tail : Text} (ends : c = '\\' → tail = [] → False)
    (escapes : ∀ d rest, c = '\\' → tail = d :: rest → False) : c ≠ '\\' := by
  intro backslash
  cases tail with
  | nil => exact ends backslash rfl
  | cons d tail => exact escapes d tail backslash rfl

/-- A quoted string is read up to its closing quote, and nothing in it is found outside quoted strings. -/
theorem splitOutside_inside (needle : Text) (taken : takeQuotedBody quote text = some (value, rest)) :
    ∃ read, text = read ++ quote :: rest ∧ splitOutside needle (.inside quote) text =
      (splitOutside needle .outside rest).map fun (before, behind) =>
        (read ++ quote :: before, behind) := by
  fun_induction takeQuotedBody quote text generalizing value with
  | case1 | case2 => cases taken
  | case3 c tail ih =>
      obtain ⟨⟨inner, behind⟩, found, same⟩ := Option.map_eq_some_iff.mp taken
      obtain ⟨-, rfl⟩ := Prod.mk.inj same
      obtain ⟨read, rfl, split⟩ := ih found
      refine ⟨'\\' :: c :: read, rfl, ?_⟩
      simp only [splitOutside, reduceCtorEq, false_and, if_false, QuoteState.next, if_true, split,
        Option.map_map]
      rfl
  | case4 tail ends escapes =>
      obtain ⟨-, rfl⟩ := Prod.mk.inj (Option.some.inj taken)
      have unescaped := ne_backslash ends escapes
      refine ⟨[], rfl, ?_⟩
      simp only [splitOutside, reduceCtorEq, false_and, if_false, QuoteState.next, unescaped, if_true,
        List.nil_append]
  | case5 c tail ends escapes different ih =>
      obtain ⟨⟨inner, behind⟩, found, same⟩ := Option.map_eq_some_iff.mp taken
      obtain ⟨-, rfl⟩ := Prod.mk.inj same
      have unescaped := ne_backslash ends escapes
      obtain ⟨read, rfl, split⟩ := ih found
      refine ⟨c :: read, rfl, ?_⟩
      simp only [splitOutside, reduceCtorEq, false_and, if_false, QuoteState.next, unescaped, different,
        split, Option.map_map]
      rfl

/-- Whatever is found behind a string is found with the string in front of it. -/
theorem splitOutside_string (quotes : isQuote quote = true) (needle : Text)
    (taken : takeQuotedBody quote text = some (value, rest)) :
    ∃ read, text = read ++ quote :: rest ∧ splitOutside needle .outside (quote :: text) =
      (splitOutside needle .outside rest).map fun (before, behind) => (quote :: (read ++ quote :: before), behind) := by
  obtain ⟨read, same, split⟩ := splitOutside_inside needle taken
  refine ⟨read, same, ?_⟩
  rw [splitOutside, if_neg (by simp [quotes]), QuoteState.next, if_pos quotes, split, Option.map_map]
  rfl

/-- A text that is one quoted string starts with its quote and is read to its end. -/
theorem takeQuoted_of_unquote (closed : unquote text = some value) :
    ∃ quote tail, text = quote :: tail ∧ isQuote quote = true ∧
      takeQuotedBody quote tail = some (value, []) := by
  rw [unquote] at closed
  split at closed
  · next read found =>
      obtain rfl := Option.some.inj closed
      cases text with
      | nil => cases found
      | cons quote tail =>
          rw [takeQuoted] at found
          split at found
          · next isQuote => exact ⟨quote, tail, rfl, isQuote, found⟩
          · cases found
  · cases closed

theorem after?_append (lead rest : Text) : after? lead (lead ++ rest) = some rest := by
  induction lead with
  | nil => rfl
  | cons c lead ih => simpa [after?] using ih

/-- A needle that is not in a text does not start in it either, where it is cut off by another character. -/
theorem after?_eq_none (absent : ¬ needle <:+: text) (foreign : c ∉ needle) :
    after? needle (text ++ c :: rest) = none := by
  rw [Option.eq_none_iff_forall_ne_some]
  intro behind found
  have same := after?_eq_some found
  obtain ⟨more, beyond, tail⟩ | ⟨more, inside, -⟩ := List.append_eq_append_iff.mp same
  · cases more with
    | nil =>
        have whole : needle = text := by rw [beyond, List.append_nil]
        exact absent ((congrArg (· <:+: text) whole).mpr (List.infix_refl text))
    | cons d more =>
        obtain ⟨rfl, -⟩ := List.cons.inj tail
        exact foreign (by simp [beyond])
  · exact absent (inside ▸ (List.prefix_append needle more).isInfix)

/-- Nothing is found in a text without quotes that does not hold it. -/
theorem splitOutside_plain (plain : ∀ d ∈ text, isQuote d = false) (absent : ¬ needle <:+: text)
    (foreign : c ∉ needle) : splitOutside needle .outside (text ++ c :: rest) =
      (splitOutside needle .outside (c :: rest)).map fun (before, behind) =>
        (text ++ before, behind) := by
  induction text with
  | nil => simp
  | cons d text ih =>
      have later : ¬ needle <:+: text := fun inside => absent (inside.trans (List.suffix_cons d text).isInfix)
      have here : after? needle (d :: (text ++ c :: rest)) = none := after?_eq_none absent foreign
      have unquoted : isQuote d = false := plain d (.head _)
      rw [List.cons_append, splitOutside]
      simp only [here, Option.isSome_none, Bool.false_eq_true, and_false, if_false, QuoteState.next,
        unquoted, ih (fun e listed => plain e (.tail _ listed)) later, Option.map_map]
      rfl

theorem isQuote_apostrophe : isQuote '\'' = true := rfl

theorem isQuote_quotationMark : isQuote '"' = true := rfl

theorem isBlank_of_isQuote (quotes : isQuote quote = true) : isBlank quote = false := by
  simp only [isQuote, Bool.or_eq_true, beq_iff_eq] at quotes
  obtain rfl | rfl := quotes <;> decide

theorem isQuote_of_isBlank (blank : isBlank c = true) : isQuote c = false := by
  rw [Bool.eq_false_iff]
  intro quotes
  exact Bool.false_ne_true ((isBlank_of_isQuote quotes).symm.trans blank)

/-- A quoted string with its escapes is read up to its closing quote. -/
theorem takeQuotedBody_escape (quotes : isQuote quote = true) (value rest : Text) :
    takeQuotedBody quote (escape quote value ++ quote :: rest) = some (value, rest) := by
  have unescaped : quote ≠ '\\' := by
    rintro rfl
    exact absurd quotes (by decide)
  induction value with
  | nil =>
      rw [escape, List.nil_append, takeQuotedBody.eq_def]
      simp [unescaped]
  | cons c value ih =>
      rw [escape]
      split
      · simp [takeQuotedBody, ih]
      · next plain =>
          rw [not_or] at plain
          rw [List.cons_append, takeQuotedBody.eq_def]
          simp [plain.1, plain.2, ih]

/-- Whatever is put in quotes is read back. -/
theorem takeQuoted_encodeQuoted (quotes : isQuote quote = true) (value rest : Text) :
    takeQuoted (encodeQuoted quote value ++ rest) = some (value, rest) := by
  rw [encodeQuoted, List.cons_append, takeQuoted, if_pos quotes, List.append_assoc]
  exact takeQuotedBody_escape quotes value rest

theorem unquote_encodeQuoted (quotes : isQuote quote = true) (value : Text) :
    unquote (encodeQuoted quote value) = some value := by
  have taken := takeQuoted_encodeQuoted quotes value []
  rw [List.append_nil] at taken
  rw [unquote, taken]

end Quotes

end TestTree.Text
