import TestTree.Proofs.Tree.Reading

/-!
Code below a line. The brace that closes it stands right under the line that opened it, and what stands in between is
kept as it is. How deep a line stands is counted in characters, but how deep a brace stands in bytes: the brace closes
the code if each character in front of it takes one byte, and is one more line of the code if some take more.
-/
namespace TestTree.Source

open Text

/-- A brace as deep as a line. -/
def braceUnder (line : Text) : Text := margin line ++ ['}']

section Braces

variable {line : Text} {indents : Nat}

theorem isBlank_of_mem_margin : ∀ c ∈ margin line, isBlank c = true :=
  List.all_eq_true.mp List.all_takeWhile

theorem margin_braceUnder (line : Text) : margin (braceUnder line) = margin line := by
  have stops : ['}'].takeWhile isBlank = [] := rfl
  rw [margin, braceUnder, List.takeWhile_append_of_pos isBlank_of_mem_margin, stops, List.append_nil]

theorem trim_braceUnder (line : Text) : trim (braceUnder line) = ['}'] := by
  have starts : trimStart (braceUnder line) = ['}'] :=
    List.dropWhile_append_of_pos isBlank_of_mem_margin
  rw [trim, starts]
  rfl

theorem codeLine_of_trim_ne (worded : trim line ≠ ['}']) (indents : Nat) : codeLine indents line = .body :=
  if_pos worded

theorem codeLine_braceUnder (line : Text) (indents : Nat) : codeLine indents (braceUnder line) =
    if utf8Size (margin line) % spacesPerIndent = 0 ∧
        min (utf8Size (margin line) / spacesPerIndent) maxIndents = indents then .closer
    else if min (utf8Size (margin line) / spacesPerIndent) maxIndents < indents then .misplaced
    else .body := by
  rw [codeLine, if_neg (not_not_intro (trim_braceUnder line)), ← margin, margin_braceUnder]

theorem spoken_of_opensCode (opens : opensCode line = true) :
    isBlankLine line = false ∧ isCommentLine line = false := by
  constructor
  · rw [Bool.eq_false_iff]
    intro blank
    exact Bool.false_ne_true ((plain_of_blank blank).2.2.symm.trans opens)
  · rw [Bool.eq_false_iff]
    intro comment
    exact Bool.false_ne_true ((plain_of_comment comment).2.2.symm.trans opens)

theorem closer_braceUnder (size : (margin line).length = indents * spacesPerIndent) (bounded : indents ≤ maxIndents)
    (narrow : utf8Size (margin line) = (margin line).length) : codeLine indents (braceUnder line) = .closer := by
  rw [codeLine_braceUnder, narrow, size, Nat.mul_mod_left, Nat.mul_div_cancel indents (by decide),
    Nat.min_eq_left bounded, if_pos ⟨rfl, rfl⟩]

theorem body_braceUnder (size : (margin line).length = indents * spacesPerIndent)
    (shallow : indents < maxIndents) (wide : utf8Size (margin line) ≠ (margin line).length) :
    codeLine indents (braceUnder line) = .body := by
  have wide : (margin line).length < utf8Size (margin line) :=
    Nat.lt_of_le_of_ne (length_le_utf8Size _) wide.symm
  have deeper : indents ≤ utf8Size (margin line) / spacesPerIndent :=
    (Nat.le_div_iff_mul_le (by decide)).mpr (size ▸ Nat.le_of_lt wide)
  rw [codeLine_braceUnder, if_neg, if_neg (Nat.not_lt_of_le (Nat.le_min.mpr ⟨deeper, Nat.le_of_lt shallow⟩))]
  rintro ⟨even, same⟩
  have level : utf8Size (margin line) / spacesPerIndent = indents := by omega
  have whole := Nat.div_mul_cancel (Nat.dvd_of_mod_eq_zero even)
  rw [level, ← size] at whole
  exact Nat.ne_of_lt wide whole

end Braces

section Scanning

variable {filename : Option Text} {number : Nat} {before code rest : List Text} {entries : List Entry}

theorem map_cons_append (entry : Entry) (read : List Entry) (later : Except TreeError (List Entry)) :
    (do return entry :: (← later.map (read ++ ·))) = later.map ((entry :: read) ++ ·) := by
  cases later <;> rfl

/-- What is read in front of a line does not depend on that line. -/
theorem scanFrom_append {block : Option OpenCode}
    (scanned : scanFrom filename number block before = .ok entries) (rest : List Text) :
    scanFrom filename number block (before ++ rest) =
      (scanFrom filename (number + before.length) none rest).map (entries ++ ·) := by
  induction before generalizing number block entries with
  | nil =>
      cases block with
      | none =>
          obtain rfl := Except.ok.inj scanned
          rw [List.nil_append, List.length_nil, Nat.add_zero]
          cases scanFrom filename number none rest <;> rfl
      | some block => cases scanned
  | cons line before ih =>
      rw [List.cons_append, List.length_cons, Nat.add_comm before.length, ← Nat.add_assoc]
      cases block with
      | some block =>
          rw [scanFrom] at scanned ⊢
          split at scanned
          · obtain ⟨further, read, rfl⟩ := cons_eq_ok scanned
            rw [ih read]
            exact map_cons_append ..
          · cases scanned
          · exact ih scanned
      | none =>
          rw [scanFrom] at scanned ⊢
          dsimp only at scanned ⊢
          split at scanned
          · next blank =>
              obtain ⟨further, read, rfl⟩ := cons_eq_ok scanned
              rw [if_pos blank, ih read]
              exact map_cons_append ..
          · next filled =>
              rw [if_neg filled]
              split at scanned
              · next comment =>
                  rw [if_pos comment]
                  exact ih scanned
              · next spoken =>
                  rw [if_neg spoken]
                  cases found : readLine filename number line with
                  | error error =>
                      rw [found] at scanned
                      cases scanned
                  | ok result =>
                      obtain ⟨read, opens⟩ := result
                      rw [found] at scanned
                      cases opens with
                      | true => exact ih scanned
                      | false =>
                          obtain ⟨further, later, rfl⟩ := cons_eq_ok scanned
                          show (do return Entry.line read false ::
                            (← scanFrom filename (number + 1) none (before ++ rest))) = _
                          rw [ih later]
                          exact map_cons_append ..

/-- Lines that are no lone brace go to the code block as they are. -/
theorem scanFrom_code (worded : ∀ line ∈ code, trim line ≠ ['}']) (block : OpenCode) (rest : List Text) :
    scanFrom filename number (some block) (code ++ rest) =
      scanFrom filename (number + code.length) (some { block with code := block.code ++ code }) rest := by
  induction code generalizing number block with
  | nil =>
      rw [List.append_nil]
      rfl
  | cons line code ih =>
      obtain ⟨here, later⟩ := List.forall_mem_cons.mp worded
      rw [List.cons_append, scanFrom, codeLine_of_trim_ne here]
      dsimp only
      rw [ih later, List.append_assoc, List.length_cons, Nat.add_right_comm, Nat.add_assoc]
      rfl

/-- A line that opens a code block is read, and the lines below it go to its code. -/
theorem scanFrom_opener {first : Text} {indents : Nat} {parsed : Step.ParsedLine}
    (deep : numIndents first = .ok indents) (read : Step.parseLine first filename number = .ok parsed)
    (opens : parsed.opensCode = true) (rest : List Text) : scanFrom filename number none (first :: rest) =
      scanFrom filename (number + 1) (some { opener := ⟨parsed.step, indents⟩ }) rest := by
  obtain ⟨filled, spoken⟩ := spoken_of_opensCode ((parseLine_cases read).2.1.symm.trans opens)
  have found : readLine filename number first = .ok (⟨parsed.step, indents⟩, true) := by
    rw [readLine, deep, read, ← opens]
    rfl
  rw [isBlankLine] at filled
  rw [isCommentLine] at spoken
  rw [scanFrom, filled, spoken, found]
  rfl

variable {first text : Text} {indents : Nat} {parsed : Step.ParsedLine}

/-- A brace under the line that opened a code block closes the block if the white space in front of it has a byte for
each character: the code is what stands in between, and the line below is the next one that is read. Where the white
space has more bytes than characters, the brace goes to the code and the block stays open. -/
theorem scan_braceUnder (cut : lines text = before ++ first :: (code ++ braceUnder first :: rest))
    (scanned : scanFrom filename 1 none before = .ok entries) (deep : numIndents first = .ok indents)
    (read : Step.parseLine first filename (before.length + 1) = .ok parsed) (opens : parsed.opensCode = true)
    (worded : ∀ line ∈ code, trim line ≠ ['}']) :
    (utf8Size (margin first) = (margin first).length → scan filename text =
      (scanFrom filename (before.length + code.length + 3) none rest).map
        (entries ++ .line ⟨{ parsed.step with codeBlock := some (join ['\n'] code) }, indents⟩ true :: ·)) ∧
    (utf8Size (margin first) ≠ (margin first).length → indents < maxIndents → scan filename text =
      (scanFrom filename (before.length + code.length + 3)
        (some ⟨⟨parsed.step, indents⟩, code ++ [braceUnder first]⟩) rest).map (entries ++ ·)) := by
  obtain ⟨filled, spoken⟩ := spoken_of_opensCode ((parseLine_cases read).2.1.symm.trans opens)
  obtain ⟨size, bounded, -⟩ := length_margin filled spoken deep
  rw [Nat.add_comm] at read
  have below : scan filename text = (scanFrom filename (1 + before.length + 1 + code.length)
      (some ⟨⟨parsed.step, indents⟩, code⟩) (braceUnder first :: rest)).map (entries ++ ·) := by
    rw [scan, cut, scanFrom_append scanned, scanFrom_opener deep read opens, scanFrom_code worded, List.nil_append]
  have place : 1 + before.length + 1 + code.length + 1 = before.length + code.length + 3 := by omega
  rw [scanFrom, place] at below
  constructor
  · intro narrow
    rw [below, closer_braceUnder size bounded narrow]
    cases scanFrom filename (before.length + code.length + 3) none rest <;> rfl
  · intro wide shallow
    rw [below, body_braceUnder size shallow wide]

/-- A code block one level deep. -/
def nested : Text := "A -\n    B \x7b\n        say hello\n    \x7d\nC -"

/-- The same with spaces that do not break, each of two bytes. -/
def wide : Text := "A -\n\u00a0\u00a0\u00a0\u00a0B \x7b\n        say hello\n\u00a0\u00a0\u00a0\u00a0\x7d\nC -"

def wideOpener : Text := "\u00a0\u00a0\u00a0\u00a0B \x7b"

theorem scan_braceUnder_nested : ∃ entries parsed spaced, scanFrom none 1 none ["A -".toList] = .ok entries ∧
    Step.parseLine "    B \x7b" none 2 = .ok parsed ∧ scan none nested =
      (scanFrom none 5 none ["C -".toList]).map (entries ++
        .line ⟨{ parsed.step with codeBlock := some "        say hello" }, 1⟩ true :: ·) ∧
    Step.parseLine wideOpener none 2 = .ok spaced ∧ scan none wide =
      (scanFrom none 5 (some ⟨⟨spaced.step, 1⟩, ["        say hello".toList, braceUnder wideOpener]⟩)
        ["C -".toList]).map (entries ++ ·) := by
  obtain ⟨entries, scanned⟩ : ∃ entries, scanFrom none 1 none ["A -".toList] = .ok entries := ⟨_, rfl⟩
  obtain ⟨parsed, read⟩ : ∃ parsed, Step.parseLine "    B \x7b" none 2 = .ok parsed := ⟨_, rfl⟩
  obtain ⟨spaced, reads⟩ : ∃ spaced, Step.parseLine wideOpener none 2 = .ok spaced := ⟨_, rfl⟩
  have opens : parsed.opensCode = true := (parseLine_cases read).2.1.trans rfl
  have opens' : spaced.opensCode = true := (parseLine_cases reads).2.1.trans rfl
  have worded : ∀ line ∈ ["        say hello".toList], trim line ≠ ['}'] := by simp; decide
  exact ⟨entries, parsed, spaced, scanned, read, (scan_braceUnder rfl scanned rfl read opens worded).1 rfl,
    reads, (scan_braceUnder rfl scanned rfl reads opens' worded).2 (by decide) (by decide)⟩

/-- The brace stands right under the line that opened the block, and yet the block is never closed. -/
theorem scan_wide :
    lines wide = ["A -".toList] ++
      wideOpener :: (["        say hello".toList] ++ (margin wideOpener ++ ['}']) :: ["C -".toList]) ∧
    numIndents wideOpener = .ok 1 ∧
    (∃ parsed, Step.parseLine wideOpener none 2 = .ok parsed ∧ parsed.opensCode = true) ∧
    (∀ line ∈ ["        say hello".toList], trim line ≠ ['}']) ∧
    scan none wide = .error (TreeError.ofFault .unclosedCode none 2) := by
  have worded : ∀ line ∈ ["        say hello".toList], trim line ≠ ['}'] := by simp; decide
  exact ⟨rfl, rfl, ⟨_, rfl, rfl⟩, worded, rfl⟩

end Scanning

end TestTree.Source
