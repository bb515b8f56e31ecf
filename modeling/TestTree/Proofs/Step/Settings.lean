import TestTree.Proofs.Step.References
import TestTree.Proofs.Text.Words
import TestTree.Step.Assignments

namespace TestTree.Assignment

open Text Reference

/-- An assignment of a string as it may be written. -/
structure Setting where
  name : Text
  value : Text
  isLocal : Bool
  quote : Char
  lead : Text
  before : Text
  behind : Text
  named : name ≠ []
  trimmed : trim name = name
  braceless : name.any isBrace = false
  quotes : isQuote quote = true
  blankLead : isAllBlank lead = true
  blankBefore : isAllBlank before = true
  blankBehind : isAllBlank behind = true

namespace Setting

def assignment (setting : Setting) : Assignment := ⟨setting.name, .literal setting.value, setting.isLocal⟩

def quoted (setting : Setting) : Text := encodeQuoted setting.quote setting.value

/-- The assignment without the white space in front of it. -/
def body (setting : Setting) : Text :=
  (Reference.mk setting.name setting.isLocal).render ++
    (setting.before ++ '=' :: (setting.behind ++ setting.quoted))

def written (setting : Setting) : Text := setting.lead ++ setting.body

end Setting

/-- Assignments in a row. -/
def written (settings : List Setting) : Text := join [','] (settings.map Setting.written)

section Reading

variable {text name value literal behind : Text} {isLocal : Bool}

theorem takeBrace_cons (brace : Char) (text : Text) : takeBrace brace (brace :: text) = (true, text) :=
  if_pos rfl

theorem takeBrace_of_head? {brace : Char} (other : text.head? ≠ some brace) :
    takeBrace brace text = (false, text) := by
  cases text with
  | nil => rfl
  | cons c rest => exact if_neg fun same => other (congrArg some same)

/-- The left-hand side of an assignment is the reference that it looks like. -/
theorem takeHead_render (named : name ≠ []) (braceless : name.any isBrace = false) {before : Text}
    (blank : ∀ c ∈ before, isBlank c = true) (value : Text) :
    takeHead ((Reference.mk name isLocal).render ++ (before ++ '=' :: value)) =
      some (⟨name, isLocal, isLocal⟩, trimStart value) := by
  have equals : trimStart (before ++ '=' :: value) = '=' :: value := by
    rw [trimStart_blanks blank, trimStart_cons (by decide)]
  have unnamed : name.isEmpty = false := by simpa using named
  obtain ⟨whole, rest⟩ := Prod.mk.inj (spanName_append braceless (before ++ '=' :: value))
  obtain ⟨whole', rest'⟩ := Prod.mk.inj (spanName_append braceless ('}' :: (before ++ '=' :: value)))
  have single : (before ++ '=' :: value).head? ≠ some '}' := by
    cases before with
    | nil => simp
    | cons c before =>
        have spaced := blank c (.head _)
        rintro same
        obtain rfl := Option.some.inj same
        exact absurd spaced (by decide)
  have unopened : (name ++ '}' :: (before ++ '=' :: value)).head? ≠ some '{' := by
    obtain ⟨first, tail, rfl⟩ := List.exists_cons_of_ne_nil named
    rintro same
    obtain rfl := Option.some.inj same
    simp [isBrace] at braceless
  cases isLocal with
  | false =>
      simp [render, takeHead, takeBrace_of_head? unopened, whole, rest, unnamed, takeBrace_of_head? single, equals]
  | true =>
      simp [render, takeHead, takeBrace_cons, whole', rest', unnamed, equals]

/-- A string is stored, and what follows the comma behind it is read in the same way. -/
theorem parseFrom_literal (head : takeHead text = some (⟨name, isLocal, isLocal⟩, value))
    (quoted : takeQuoted value = some (literal, behind)) (done : List Assignment) :
    parseFrom done text =
      match trimStart behind with
      | [] => pure (done ++ [⟨trim name, .literal literal, isLocal⟩])
      | c :: rest =>
          if c = ',' then parseFrom (done ++ [⟨trim name, .literal literal, isLocal⟩]) (trimStart rest)
          else throw .textAfterLiteral := by
  rw [parseFrom]
  split
  · next none => cases none.symm.trans head
  · next found =>
    cases found.symm.trans head
    rw [if_neg (by simp)]
    split
    · next taken =>
      cases taken.symm.trans quoted
      dsimp only
      split
      · next ends => rw [ends]
      · next c rest ends => rw [ends]
    · next none => cases none.symm.trans quoted

/-- What stands in quotes is left as it is by trimming. -/
theorem trimStart_quoted (setting : Setting) (rest : Text) :
    trimStart (setting.behind ++ (setting.quoted ++ rest)) = setting.quoted ++ rest := by
  rw [trimStart_blanks (isBlank_of_isAllBlank setting.blankBehind), Setting.quoted, encodeQuoted,
    List.cons_append, trimStart_cons (isBlank_of_isQuote setting.quotes)]

theorem takeHead_body (setting : Setting) (rest : Text) :
    takeHead (setting.body ++ rest) =
      some (⟨setting.name, setting.isLocal, setting.isLocal⟩, setting.quoted ++ rest) := by
  have value := trimStart_quoted setting rest
  rw [← value, ← takeHead_render setting.named setting.braceless (isBlank_of_isAllBlank setting.blankBefore)]
  simp [Setting.body]

theorem trimStart_written (setting : Setting) (rest : Text) :
    trimStart (setting.written ++ rest) = setting.body ++ rest := by
  obtain ⟨tail, opens⟩ : ∃ tail, setting.body = '{' :: tail := by
    rw [Setting.body, render]
    split <;> exact ⟨_, rfl⟩
  rw [Setting.written, List.append_assoc, trimStart_blanks (isBlank_of_isAllBlank setting.blankLead), opens,
    List.cons_append, trimStart_cons (by decide)]

theorem parseFrom_written (done : List Assignment) (settings : List Setting) :
    parseFrom done (trimStart (written settings)) = .ok (done ++ settings.map Setting.assignment) := by
  induction settings generalizing done with
  | nil =>
      rw [parseFrom]
      simp [written, join, trimStart, takeHead]
      rfl
  | cons setting others ih =>
      have read (rest : Text) : takeQuoted (setting.quoted ++ rest) = some (setting.value, rest) :=
        takeQuoted_encodeQuoted setting.quotes setting.value rest
      have stored :
          (⟨trim setting.name, .literal setting.value, setting.isLocal⟩ : Assignment) = setting.assignment := by
        rw [setting.trimmed]
        rfl
      cases others with
      | nil =>
          have alone : written [setting] = setting.written ++ [] := (List.append_nil _).symm
          rw [alone, trimStart_written, parseFrom_literal (takeHead_body setting []) (read []), stored]
          rfl
      | cons next others =>
          have further : written (setting :: next :: others) =
              setting.written ++ ',' :: written (next :: others) := by
            simp [written, join]
          rw [further, trimStart_written, parseFrom_literal (takeHead_body setting _) (read _), stored,
            trimStart_cons (by decide)]
          dsimp only
          rw [if_pos rfl, ih]
          simp

/-- The last character of a row of assignments is a quote. -/
theorem written_ends (setting : Setting) (others : List Setting) :
    ∃ front quote, written (setting :: others) = front ++ [quote] ∧ isQuote quote = true := by
  induction others generalizing setting with
  | nil =>
      exact ⟨setting.lead ++ ((Reference.mk setting.name setting.isLocal).render ++ (setting.before ++ '=' ::
        (setting.behind ++ setting.quote :: escape setting.quote setting.value))), setting.quote,
        by simp [written, join, Setting.written, Setting.body, Setting.quoted, encodeQuoted], setting.quotes⟩
  | cons next others ih =>
      obtain ⟨front, quote, ends, quotes⟩ := ih next
      refine ⟨setting.written ++ ',' :: front, quote, ?_, quotes⟩
      rw [List.append_assoc, List.cons_append, ← ends]
      simp [written, join]

end Reading

/-- Behind strings there are only strings; a call stands alone. -/
theorem literals_or_call {done assignments : List Assignment} {text : Text}
    (literals : ∀ assignment ∈ done, assignment.value.isLiteral = true)
    (parsed : parseFrom done text = .ok assignments) :
    (∀ assignment ∈ assignments, assignment.value.isLiteral = true) ∨
      ∃ name call isLocal, assignments = [⟨name, .call call, isLocal⟩] := by
  fun_induction parseFrom done text with
  | case1 | case3 | case6 | case7 | case8 => cases parsed
  | case2 =>
      obtain rfl := Except.ok.inj parsed
      exact .inl literals
  | case4 =>
      obtain rfl := Except.ok.inj parsed
      exact .inl (List.forall_mem_append.mpr ⟨literals, List.forall_mem_singleton.mpr rfl⟩)
  | case5 _ _ _ _ _ _ _ _ _ _ _ _ _ _ ih =>
      exact ih (List.forall_mem_append.mpr ⟨literals, List.forall_mem_singleton.mpr rfl⟩) parsed
  | case9 =>
      obtain rfl := Except.ok.inj parsed
      exact .inr ⟨_, _, _, rfl⟩

/-- Strings set in a row are read back as they are. Wherever assignments are read, they are all strings, or there
is but one and it is a call. -/
theorem parse_settings (settings : List Setting) :
    parse (written settings) = .ok (settings.map Setting.assignment) ∧
      ∀ (text : Text) (assignments : List Assignment), parse text = .ok assignments →
        (∀ assignment ∈ assignments, assignment.value.isLiteral = true) ∨
          ∃ name call isLocal, assignments = [⟨name, .call call, isLocal⟩] := by
  refine ⟨?_, fun text assignments => literals_or_call fun _ absent => by cases absent⟩
  have trimmed : trim (written settings) = trimStart (written settings) := by
    cases settings with
    | nil => rfl
    | cons setting others =>
        obtain ⟨front, quote, ends, quotes⟩ := written_ends setting others
        rw [ends, trim_concat (isBlank_of_isQuote quotes)]
  rw [parse, trimmed, parseFrom_written, List.nil_append]

def title : Setting where
  name := "title"
  value := "it's \x7bb\x7d='', \"\\"
  isLocal := false
  quote := '\''
  lead := []
  before := [' ']
  behind := []
  named := by decide
  trimmed := by decide
  braceless := rfl
  quotes := isQuote_apostrophe
  blankLead := rfl
  blankBefore := isAllBlank_space
  blankBehind := rfl

def total : Setting where
  name := "grand = total"
  value := []
  isLocal := true
  quote := '"'
  lead := ['\t', ' ']
  before := []
  behind := ['\u00a0']
  named := by decide
  trimmed := by decide
  braceless := rfl
  quotes := isQuote_quotationMark
  blankLead := rfl
  blankBefore := rfl
  blankBehind := rfl

/-- A value that looks like assignments and an empty one are read back; and a call is read. -/
theorem parse_settings_title :
    written [title, total] =
        "\x7btitle\x7d ='it\\'s \x7bb\x7d=\\'\\', \"\\\\',\t \x7b\x7bgrand = total\x7d\x7d=\u00a0\"\"".toList ∧
      parse (written [title, total]) = .ok [title.assignment, total.assignment] ∧
      ∃ assignments, parse "\x7bsum\x7d = Add 'x'" = .ok assignments ∧
        ((∀ assignment ∈ assignments, assignment.value.isLiteral = true) ∨
          ∃ name call isLocal, assignments = [⟨name, .call call, isLocal⟩]) := by
  obtain ⟨read, either⟩ := parse_settings [title, total]
  obtain ⟨assignments, called⟩ : ∃ assignments, parse "\x7bsum\x7d = Add 'x'" = .ok assignments := by
    have accepted : (parse "\x7bsum\x7d = Add 'x'").isOk = true := by decide +kernel
    cases called : parse "\x7bsum\x7d = Add 'x'" with
    | error fault =>
        rw [called] at accepted
        cases accepted
    | ok assignments => exact ⟨assignments, rfl⟩
  exact ⟨by decide +kernel, read, assignments, called, either _ _ called⟩

end TestTree.Assignment
