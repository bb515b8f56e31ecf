import Mathlib
import TestTree.Proofs.Text.Words
import TestTree.Step.ElementFinder

/-!
Element finders as they may be written: the parts that are there, in their order and one space apart, with either
quote around a string. Each is read back as it is. The variable ends where it is written to end, although it may hold
the very words that announce a neighbour: as long as letters of it are to come, what stands in front of the quote of
the neighbour has more letters than those words.
-/
namespace TestTree.ElementFinder

open Text

section Parts

variable {text rest suffix : Text} {quote c : Char} {n : Nat}

theorem body_escape (quotes : isQuote quote = true) (value rest : Text) :
    takePart.body quote (escape quote value ++ quote :: rest) = some (value, rest) := by
  have unescaped : quote ≠ '\\' := by
    rintro rfl
    exact absurd quotes (by decide)
  have straight : quote ≠ '\n' := by
    rintro rfl
    exact absurd quotes (by decide)
  induction value with
  | nil =>
      rw [escape, List.nil_append, takePart.body.eq_def]
      simp [unescaped]
  | cons c value ih =>
      rw [escape]
      split
      · next special =>
          have spoken : c ≠ '\n' := by
            rcases special with rfl | rfl
            · decide
            · exact straight
          simp [takePart.body, spoken, ih]
      · next plain =>
          rw [not_or] at plain
          rw [List.cons_append, takePart.body.eq_def]
          simp [plain.1, plain.2, ih]

theorem takePart_encodeQuoted (quotes : isQuote quote = true) (value rest : Text) :
    takePart (encodeQuoted quote value ++ rest) = some (value, rest) := by
  rw [encodeQuoted, List.cons_append, takePart, if_pos quotes, List.append_assoc]
  exact body_escape quotes value rest

theorem takePart_eq_none (unquoted : ∀ c ∈ text.head?, isQuote c = false) : takePart text = none := by
  cases text with
  | nil => rfl
  | cons c rest => simp [takePart, unquoted c rfl]

theorem ofNat_eq_toDigits (n : Nat) : ofNat n = Nat.toDigits 10 n := Nat.toList_repr

theorem ofNat_ne_nil (n : Nat) : ofNat n ≠ [] :=
  ofNat_eq_toDigits n ▸ Nat.toDigits_ne_nil

theorem isDigit_of_mem_ofNat (listed : c ∈ ofNat n) : c.isDigit = true :=
  Nat.isDigit_of_mem_toDigits (by decide) (Nat.le_refl _) (ofNat_eq_toDigits n ▸ listed)

theorem bounds_of_isDigit (digit : c.isDigit = true) : 48 ≤ c.toNat ∧ c.toNat ≤ 57 := by
  simpa [Char.isDigit, UInt32.le_iff_toNat_le] using digit

theorem isDecimalDigit_of_isDigit (digit : c.isDigit = true) : isDecimalDigit c = true := by
  have bounds := bounds_of_isDigit digit
  rw [isDecimalDigit, if_pos (by omega), digit]

/-- A character is not white space if its code lies where no white space does. -/
theorem isBlank_of_bounds {low high : Nat} (apart : ∀ code ∈ blankCodes, code < low ∨ high < code)
    (bounds : low ≤ c.toNat ∧ c.toNat ≤ high) : isBlank c = false := by
  rw [Bool.eq_false_iff]
  intro blank
  have outside := apart c.toNat (by simpa [isBlank] using blank)
  omega

theorem isBlank_of_isDigit (digit : c.isDigit = true) : isBlank c = false :=
  isBlank_of_bounds (by decide) (bounds_of_isDigit digit)

theorem takeOrdinal_ofNat (listed : suffix ∈ ordinalSuffixes) (n : Nat) (rest : Text) :
    takeOrdinal (ofNat n ++ (suffix ++ rest)) = some (ofNat n, trimStart rest) := by
  have digits : ∀ c ∈ ofNat n, isDecimalDigit c = true := fun c within =>
    isDecimalDigit_of_isDigit (isDigit_of_mem_ofNat within)
  have filled : (ofNat n).isEmpty = false := by simpa using ofNat_ne_nil n
  have first : ∀ suffix ∈ ordinalSuffixes, ∃ c tail, suffix = c :: tail ∧ isDecimalDigit c = false := by
    simp [ordinalSuffixes]
    decide
  obtain ⟨c, tail, rfl, other⟩ := first suffix listed
  have taken : (ofNat n ++ (c :: tail ++ rest)).takeWhile isDecimalDigit = ofNat n := by
    rw [List.takeWhile_append_of_pos digits, List.cons_append, List.takeWhile_cons_of_neg (by simp [other]),
      List.append_nil]
  have left : (ofNat n ++ (c :: tail ++ rest)).dropWhile isDecimalDigit = c :: tail ++ rest := by
    rw [List.dropWhile_append_of_pos digits, List.cons_append, List.dropWhile_cons_of_neg (by simp [other])]
  have found : (ordinalSuffixes.findSome? fun suffix => after? suffix (c :: tail ++ rest)) = some rest := by
    simp only [ordinalSuffixes, List.mem_cons, List.not_mem_nil, or_false] at listed
    rcases listed with same | same | same | same <;> rw [same] <;> simp [ordinalSuffixes, after?]
  rw [takeOrdinal, taken, left, found]
  simp [filled]

theorem takeOrdinal_eq_none (undigited : ∀ c ∈ text.head?, isDecimalDigit c = false) :
    takeOrdinal text = none := by
  cases text with
  | nil => rfl
  | cons c rest => simp [takeOrdinal, undigited c rfl]

theorem ordinalValue_ofNat (small : n < 2 ^ 32) : ordinalValue (ofNat n) = some n := by
  have all : (ofNat n).all Char.isDigit = true := List.all_eq_true.mpr fun c => isDigit_of_mem_ofNat
  have value : (ofNat n).foldl (fun n c => 10 * n + (c.toNat - '0'.toNat)) 0 = n := by
    rw [ofNat_eq_toDigits]
    exact Nat.ofDigitChars_toDigits (by decide) (Nat.le_refl _)
  rw [ordinalValue, if_pos all, value]
  exact if_pos small

end Parts

section Neighbours

variable {text behind value : Text} {c quote : Char}

/-- The characters in front of the first quote, but for white space; none if there is no quote. -/
def leading : Text → Option Text
  | [] => none
  | c :: rest => if isQuote c then some [] else if isBlank c then leading rest else (leading rest).map (c :: ·)

theorem leading_blank (blank : isBlank c = true) (rest : Text) : leading (c :: rest) = leading rest := by
  simp [leading, isQuote_of_isBlank blank, blank]

theorem leading_trimStart (text : Text) : leading (trimStart text) = leading text := by
  induction text with
  | nil => rfl
  | cons c rest ih =>
      cases blank : isBlank c with
      | true => rw [trimStart, List.dropWhile_cons_of_pos blank, leading_blank blank, ← ih, trimStart]
      | false => rw [trimStart_cons blank]

theorem leading_append {front : Text} (unquoted : ∀ c ∈ front, isQuote c = false) (behind : Text) :
    leading (front ++ behind) = (leading behind).map (front.filter (!isBlank ·) ++ ·) := by
  induction front with
  | nil => simp
  | cons c front ih =>
      have rest := ih fun d listed => unquoted d (.tail _ listed)
      cases blank : isBlank c <;> simp [leading, unquoted c (.head _), blank, rest, Function.comp_def]

theorem skipBlanks_cases (skipped : skipBlanks text = some behind) :
    ∃ c rest, text = c :: rest ∧ isBlank c = true ∧ behind = trimStart rest := by
  cases text with
  | nil => cases skipped
  | cons c rest =>
      rw [skipBlanks] at skipped
      split at skipped
      · next blank =>
        cases skipped
        exact ⟨c, rest, rfl, blank, rfl⟩
      · cases skipped

theorem takePart_cases {rest : Text} (taken : takePart text = some (value, rest)) :
    ∃ quote body, text = quote :: body ∧ isQuote quote = true := by
  cases text with
  | nil => cases taken
  | cons quote body =>
      rw [takePart] at taken
      split at taken
      · next quotes => exact ⟨quote, body, rfl, quotes⟩
      · cases taken

/-- The letters that announce a neighbour. -/
def announcement : Text := ['n', 'e', 'x', 't', 't', 'o']

/-- Only white space and a neighbour are the end of a finder. -/
theorem parseNeighbour_cases {neighbour : Option Text} (parsed : parseNeighbour text = some neighbour) :
    trimStart text = [] ∨ leading text = some announcement := by
  rw [parseNeighbour] at parsed
  split at parsed
  · next ends => exact .inl ends
  · simp only [Option.bind_eq_bind, Option.bind_eq_some_iff] at parsed
    obtain ⟨afterNext, starts, afterBlank, skipped, parsed⟩ := parsed
    obtain ⟨afterTo, goesOn, start, skipped', ⟨value, rest⟩, taken, -⟩ := parsed
    obtain ⟨first, more, rfl, blank, rfl⟩ := skipBlanks_cases skipped
    obtain ⟨second, further, rfl, blank', rfl⟩ := skipBlanks_cases skipped'
    obtain ⟨quote, body, quoted, quotes⟩ := takePart_cases taken
    have nextUnquoted : ∀ c ∈ ['n', 'e', 'x', 't'], isQuote c = false := by simp [isQuote]
    have toUnquoted : ∀ c ∈ ['t', 'o'], isQuote c = false := by simp [isQuote]
    right
    rw [← leading_trimStart, after?_eq_some starts, leading_append nextUnquoted, leading_blank blank,
      ← leading_trimStart, after?_eq_some goesOn, leading_append toUnquoted, leading_blank blank',
      ← leading_trimStart, quoted, leading, if_pos quotes]
    rfl

/-- A text in which something stands in front of a neighbour is not the end of a finder yet. -/
theorem parseNeighbour_eq_none (filled : trimStart text ≠ []) (other : leading text ≠ some announcement) :
    parseNeighbour text = none := by
  rw [Option.eq_none_iff_forall_ne_some]
  intro neighbour parsed
  rcases parseNeighbour_cases parsed with ends | announced
  · exact filled ends
  · exact other announced

/-- A neighbour with the words that announce it. -/
def announced (quote : Char) (value : Text) : Text :=
  ['n', 'e', 'x', 't', ' ', 't', 'o', ' '] ++ encodeQuoted quote value

theorem leading_announced (quotes : isQuote quote = true) (value : Text) :
    leading (announced quote value) = some announcement := by
  have unquoted : ∀ c ∈ ['n', 'e', 'x', 't', ' ', 't', 'o', ' '], isQuote c = false := by simp [isQuote]
  rw [announced, leading_append unquoted, encodeQuoted, leading, if_pos quotes]
  rfl

theorem parseNeighbour_announced (quotes : isQuote quote = true) {gap : Text}
    (blank : ∀ c ∈ gap, isBlank c = true) (value : Text) :
    parseNeighbour (gap ++ announced quote value) = some (some value) := by
  have starts : trimStart (encodeQuoted quote value) = encodeQuoted quote value :=
    trimStart_cons (isBlank_of_isQuote quotes) _
  have taken : takePart (encodeQuoted quote value) = some (value, []) := by
    have read := takePart_encodeQuoted quotes value []
    rwa [List.append_nil] at read
  have trimmed : trimStart (gap ++ announced quote value) = announced quote value :=
    (trimStart_blanks blank _).trans (trimStart_cons (by decide) _)
  have first : after? ['n', 'e', 'x', 't'] (announced quote value) =
      some ([' ', 't', 'o', ' '] ++ encodeQuoted quote value) := rfl
  have second : skipBlanks ([' ', 't', 'o', ' '] ++ encodeQuoted quote value) =
      some (['t', 'o', ' '] ++ encodeQuoted quote value) := rfl
  have third : after? ['t', 'o'] (['t', 'o', ' '] ++ encodeQuoted quote value) =
      some ([' '] ++ encodeQuoted quote value) := rfl
  have fourth : skipBlanks ([' '] ++ encodeQuoted quote value) = some (encodeQuoted quote value) :=
    congrArg some starts
  rw [parseNeighbour, trimmed]
  split
  · next ends => cases ends
  · simp only [Option.bind_eq_bind, first, second, third, fourth, taken, Option.bind_some]
    rfl

end Neighbours

section Variables

variable {name tail rest : Text} {neighbour : Option Text} {c quote : Char}

/-- A variable starts with a letter or an underscore and does not end in a space. -/
structure IsVariable (name : Text) : Prop where
  starts : ∃ first rest, name = first :: rest ∧ startsVariable first = true
  continues : ∀ c ∈ name.tail, continuesVariable c = true
  ends : name.getLast? ≠ some ' '

/-- What may stand behind a variable. -/
inductive Ending : Text → Option Text → Prop
  | bare : Ending [] none
  | neighbour {quote : Char} (quotes : isQuote quote = true) (value : Text) :
      Ending (' ' :: announced quote value) (some value)

theorem startsVariable_apart (starts : startsVariable c = true) :
    isBlank c = false ∧ isQuote c = false ∧ isDecimalDigit c = false := by
  have bounds : 65 ≤ c.toNat ∧ c.toNat ≤ 122 := by
    simp only [startsVariable, Char.isAlpha, Char.isUpper, Char.isLower, Bool.or_eq_true, Bool.and_eq_true,
      decide_eq_true_eq, UInt32.le_iff_toNat_le, beq_iff_eq] at starts
    rcases starts with (⟨low, high⟩ | ⟨low, high⟩) | rfl
    · exact ⟨low, Nat.le_trans high (by decide)⟩
    · exact ⟨Nat.le_trans (by decide) low, high⟩
    · decide
  refine ⟨?_, ?_, ?_⟩
  · exact isBlank_of_bounds (by decide) bounds
  · rw [Bool.eq_false_iff]
    intro quotes
    simp only [isQuote, Bool.or_eq_true, beq_iff_eq] at quotes
    rcases quotes with rfl | rfl <;> revert bounds <;> decide
  · rw [isDecimalDigit, if_pos (by omega), Bool.eq_false_iff]
    intro digit
    have small := bounds_of_isDigit digit
    omega

theorem isWordCharacter_of_isBlank (blank : isBlank c = true) : isWordCharacter c = false := by
  have apart : ∀ code ∈ blankCodes, isWordCharacter (Char.ofNat code) = false := by decide +kernel
  have listed : c.toNat ∈ blankCodes := by simpa [isBlank] using blank
  have same := apart c.toNat listed
  rwa [Char.ofNat_toNat] at same

theorem isBlank_of_continuesVariable (continues : continuesVariable c = true) (spaceless : c ≠ ' ') :
    isBlank c = false := by
  rw [Bool.eq_false_iff]
  intro blank
  simp only [continuesVariable, isWordCharacter_of_isBlank blank, Bool.false_or, Bool.or_eq_true, beq_iff_eq,
    spaceless, or_false] at continues
  rw [continues] at blank
  exact absurd blank (by decide)

theorem isQuote_of_continuesVariable (continues : continuesVariable c = true) : isQuote c = false := by
  rw [Bool.eq_false_iff]
  intro quotes
  simp only [isQuote, Bool.or_eq_true, beq_iff_eq] at quotes
  rcases quotes with rfl | rfl <;> exact absurd continues (by decide)

theorem Ending.parseNeighbour_eq (ending : Ending tail neighbour) : parseNeighbour tail = some neighbour := by
  cases ending with
  | bare => rfl
  | @neighbour quote quotes value =>
      have blank : ∀ c ∈ [' '], isBlank c = true := List.forall_mem_singleton.mpr rfl
      exact parseNeighbour_announced quotes blank value

/-- A finder does not end where letters of the variable are still to come. -/
theorem Ending.parseNeighbour_append (ending : Ending tail neighbour)
    (continues : ∀ c ∈ name, continuesVariable c = true) (lettered : name.filter (!isBlank ·) ≠ []) :
    parseNeighbour (name ++ tail) = none := by
  have unquoted : ∀ c ∈ name, isQuote c = false := fun c listed =>
    isQuote_of_continuesVariable (continues c listed)
  apply parseNeighbour_eq_none
  · intro ends
    rw [trimStart, List.dropWhile_eq_nil_iff] at ends
    apply lettered
    rw [List.filter_eq_nil_iff]
    intro c listed
    simp [ends c (List.mem_append_left tail listed)]
  · rw [leading_append unquoted]
    cases ending with
    | bare => exact fun absent => by cases absent
    | @neighbour quote quotes value =>
        rw [leading_blank (by decide), leading_announced quotes, Option.map_some]
        intro same
        have shorter := congrArg List.length (Option.some.inj same)
        rw [List.length_append] at shorter
        exact lettered (List.eq_nil_of_length_eq_zero (by omega))

/-- As long as letters are to come, the shortest way to read the variable goes on. -/
theorem parseVariableRest_append (ending : Ending tail neighbour)
    (continues : ∀ c ∈ name, continuesVariable c = true) (ends : name.getLast? ≠ some ' ') :
    parseVariableRest (name ++ tail) = some (name, neighbour) := by
  induction name with
  | nil =>
      have found := ending.parseNeighbour_eq
      cases ending with
      | bare => rfl
      | neighbour =>
          rw [List.nil_append, parseVariableRest, found]
  | cons c rest ih =>
      have later : rest.getLast? ≠ some ' ' := by
        cases rest with
        | nil => simp
        | cons d rest => rwa [List.getLast?_cons_cons] at ends
      have lettered : (c :: rest).filter (!isBlank ·) ≠ [] := by
        intro empty
        have whole := List.filter_eq_nil_iff.mp empty
        obtain ⟨last, found⟩ : ∃ last, (c :: rest).getLast? = some last :=
          ⟨_, List.getLast?_eq_some_getLast (List.cons_ne_nil c rest)⟩
        have listed := List.mem_of_getLast? found
        have spaceless : last ≠ ' ' := fun same => ends (same ▸ found)
        exact whole last listed (by simp [isBlank_of_continuesVariable (continues last listed) spaceless])
      have unended := ending.parseNeighbour_append continues lettered
      rw [List.cons_append] at unended ⊢
      rw [parseVariableRest, unended]
      simp [continues c (.head _), ih (fun d listed => continues d (.tail _ listed)) later]

theorem parseVariable_append (isVariable : IsVariable name) (ending : Ending tail neighbour) :
    parseVariable (name ++ tail) = some (some name, neighbour) := by
  obtain ⟨first, rest, rfl, starts⟩ := isVariable.starts
  have ends : rest.getLast? ≠ some ' ' := by
    cases rest with
    | nil => simp
    | cons d rest => simpa using isVariable.ends
  have read : parseVariableRest (rest ++ tail) = some (rest, neighbour) :=
    parseVariableRest_append ending isVariable.continues ends
  rw [List.cons_append, parseVariable, if_pos starts, read]

/-- Too few letters in front of a quote announce no neighbour. -/
theorem parseNeighbour_of_short {front : Text} (unquoted : ∀ c ∈ front, isQuote c = false)
    (short : (front.filter (!isBlank ·)).length < announcement.length) (quotes : isQuote quote = true)
    (rest : Text) : parseNeighbour (front ++ quote :: rest) = none := by
  apply parseNeighbour_eq_none
  · intro ends
    rw [trimStart, List.dropWhile_eq_nil_iff] at ends
    have blank : isBlank quote = true := ends quote (by simp)
    exact Bool.false_ne_true ((isBlank_of_isQuote quotes).symm.trans blank)
  · rw [leading_append unquoted, leading, if_pos quotes, Option.map_some, List.append_nil]
    intro same
    rw [Option.some.inj same] at short
    exact Nat.lt_irrefl _ short

/-- No variable stands in front of a quote that too few letters announce. -/
theorem parseVariableRest_eq_none {front : Text} (unquoted : ∀ c ∈ front, isQuote c = false)
    (short : (front.filter (!isBlank ·)).length < announcement.length) (quotes : isQuote quote = true)
    (rest : Text) : parseVariableRest (front ++ quote :: rest) = none := by
  have unended : parseNeighbour (front ++ quote :: rest) = none :=
    parseNeighbour_of_short unquoted short quotes rest
  induction front with
  | nil =>
      have foreign : continuesVariable quote = false := by
        rw [Bool.eq_false_iff]
        intro continues
        exact Bool.false_ne_true ((isQuote_of_continuesVariable continues).symm.trans quotes)
      rw [List.nil_append] at unended ⊢
      rw [parseVariableRest, unended]
      simp [foreign]
  | cons c front ih =>
      have fewer : (front.filter (!isBlank ·)).length < announcement.length :=
        Nat.lt_of_le_of_lt (List.Sublist.length_le (.filter _ (List.sublist_cons_self c front))) short
      have later : ∀ d ∈ front, isQuote d = false := fun d listed => unquoted d (.tail _ listed)
      rw [List.cons_append] at unended ⊢
      rw [parseVariableRest, unended]
      simp [ih later fewer (parseNeighbour_of_short later fewer quotes rest)]

theorem parseVariable_announced (quotes : isQuote quote = true) (value : Text) :
    parseVariable (announced quote value) = some (none, some value) := by
  have unquoted : ∀ c ∈ ['e', 'x', 't', ' ', 't', 'o', ' '], isQuote c = false := by simp [isQuote]
  have unread := parseVariableRest_eq_none unquoted (by decide) quotes (escape quote value ++ [quote])
  have alone : parseNeighbour (announced quote value) = some (some value) :=
    parseNeighbour_announced quotes (List.forall_mem_nil _) value
  have opens : announced quote value =
      'n' :: (['e', 'x', 't', ' ', 't', 'o', ' '] ++ quote :: (escape quote value ++ [quote])) := rfl
  rw [opens] at alone ⊢
  rw [parseVariable, if_pos (by decide), unread, alone]
  rfl

end Variables

section Finders

variable {content afterOrdinal afterText : Text} {ordinal : Option Nat} {text variableName nextTo : Option Text}

/-- A finder is what its parts are, as they are read one after the other. -/
theorem parse_of_parts (counted : takeOrdinal (trimStart content) = ordinal.map fun n => (ofNat n, afterOrdinal))
    (uncounted : ordinal = none → afterOrdinal = trimStart content) (small : ∀ n ∈ ordinal, n < 2 ^ 32)
    (quoted : takePart afterOrdinal = text.map fun value => (value, afterText))
    (unquoted : text = none → afterText = afterOrdinal)
    (named : parseVariable (trimStart afterText) = some (variableName, nextTo)) :
    parse content =
      if ordinal.isNone && text.isNone && variableName.isNone then
        .error (if nextTo.isNone then .badFinder content else .danglingNextTo content)
      else .ok { ordinal, text, variableName, nextTo } := by
  have valued : ∀ n ∈ ordinal, ordinalValue (ofNat n) = some n := fun n found =>
    ordinalValue_ofNat (small n found)
  cases ordinal with
  | none =>
      obtain rfl := uncounted rfl
      cases text with
      | none =>
          obtain rfl := unquoted rfl
          simp only [parse, counted, quoted, named, Option.map_none]
          cases variableName <;> rfl
      | some value =>
          simp only [parse, counted, quoted, named, Option.map_none, Option.map_some]
          rfl
  | some n =>
      cases text with
      | none =>
          obtain rfl := unquoted rfl
          simp only [parse, counted, quoted, named, valued n rfl, Option.map_none, Option.map_some]
          rfl
      | some value =>
          simp only [parse, counted, quoted, named, valued n rfl, Option.map_some]
          rfl

/-- Parts behind others, with the space in front of them. -/
def spaced (parts : List Text) : Text :=
  if parts.isEmpty then [] else ' ' :: join [' '] parts

theorem join_cons (part : Text) (parts : List Text) : join [' '] (part :: parts) = part ++ spaced parts := by
  cases parts with
  | nil => exact (List.append_nil part).symm
  | cons next others => simp [join, spaced]

/-- A row of parts starts as its first part does. -/
def Opens (p : Char → Prop) (parts : List Text) : Prop := ∀ part ∈ parts, ∃ c rest, part = c :: rest ∧ p c

theorem Opens.head? {p : Char → Prop} {parts : List Text} (opens : Opens p parts) :
    ∀ c ∈ (join [' '] parts).head?, p c := by
  intro c first
  cases parts with
  | nil => cases first
  | cons part parts =>
      obtain ⟨d, rest, rfl, starts⟩ := opens part (.head _)
      rw [join_cons] at first
      exact Option.some.inj first ▸ starts

theorem trimStart_of_head? {text : Text} (filled : ∀ c ∈ text.head?, isBlank c = false) :
    trimStart text = text := by
  cases text with
  | nil => rfl
  | cons c rest => exact trimStart_cons (filled c rfl) rest

theorem trimStart_spaced {parts : List Text} (opens : Opens (isBlank · = false) parts) :
    trimStart (spaced parts) = join [' '] parts := by
  cases parts with
  | nil => rfl
  | cons part parts =>
      have blank : isBlank ' ' = true := rfl
      rw [spaced, if_neg (by simp), trimStart, List.dropWhile_cons_of_pos blank]
      exact trimStart_of_head? opens.head?

theorem Opens.mono {p q : Char → Prop} {parts : List Text} (opens : Opens p parts) (weaker : ∀ c, p c → q c) :
    Opens q parts := by
  intro part listed
  obtain ⟨c, rest, same, starts⟩ := opens part listed
  exact ⟨c, rest, same, weaker c starts⟩

theorem Opens.append {p : Char → Prop} {parts others : List Text} (opens : Opens p parts)
    (further : Opens p others) : Opens p (parts ++ others) :=
  List.forall_mem_append.mpr ⟨opens, further⟩

theorem opens_toList {p : Char → Prop} {α : Type} {write : α → Text} {part : Option α}
    (opens : ∀ value ∈ part, ∃ c rest, write value = c :: rest ∧ p c) : Opens p (part.map write).toList := by
  intro text listed
  simp only [Option.mem_toList, Option.map_eq_some_iff] at listed
  obtain ⟨value, found, rfl⟩ := listed
  exact opens value found

/-- How the parts of a finder are written: the letters behind the ordinal, and the quotes around the strings. -/
structure Spelling where
  suffix : Text
  textQuote : Char
  neighbourQuote : Char
  suffixed : suffix ∈ ordinalSuffixes
  textQuoted : isQuote textQuote = true
  neighbourQuoted : isQuote neighbourQuote = true

/-- The bounds within which a finder can be written. -/
structure Writable (finder : ElementFinder) : Prop where
  ordinal : ∀ n ∈ finder.ordinal, n < 2 ^ 32
  variableName : ∀ name ∈ finder.variableName, IsVariable name

namespace Spelling

variable (spelling : Spelling) (finder : ElementFinder)

/-- The variable and the neighbour. -/
def ending : List Text :=
  (finder.variableName.map id).toList ++ (finder.nextTo.map (announced spelling.neighbourQuote)).toList

/-- All but the ordinal. -/
def behindOrdinal : List Text :=
  (finder.text.map (encodeQuoted spelling.textQuote)).toList ++ spelling.ending finder

def written : Text :=
  join [' '] ((finder.ordinal.map fun n => ofNat n ++ spelling.suffix).toList ++ spelling.behindOrdinal finder)

variable {finder} (writable : Writable finder)

include writable

theorem opens_ending : Opens (startsVariable · = true) (spelling.ending finder) := by
  refine .append (opens_toList fun name found => (writable.variableName name found).starts) (opens_toList ?_)
  exact fun value _ => ⟨'n', _, rfl, rfl⟩

theorem opens_behindOrdinal :
    Opens (fun c => isBlank c = false ∧ isDecimalDigit c = false) (spelling.behindOrdinal finder) := by
  refine .append (opens_toList fun value _ => ⟨spelling.textQuote, _, rfl, ?_⟩)
    ((spelling.opens_ending writable).mono fun c starts => ?_)
  · have quotes := spelling.textQuoted
    simp only [isQuote, Bool.or_eq_true, beq_iff_eq] at quotes
    rcases quotes with same | same <;> rw [same] <;> decide
  · obtain ⟨filled, -, other⟩ := startsVariable_apart starts
    exact ⟨filled, other⟩

theorem trimStart_written : trimStart (spelling.written finder) = spelling.written finder := by
  refine trimStart_of_head? (Opens.head? (.append (opens_toList fun n _ => ?_)
    ((spelling.opens_behindOrdinal writable).mono fun c both => both.1)))
  obtain ⟨first, rest, digits⟩ := List.exists_cons_of_ne_nil (ofNat_ne_nil n)
  exact ⟨first, rest ++ spelling.suffix, by rw [digits]; rfl,
    isBlank_of_isDigit (isDigit_of_mem_ofNat (digits ▸ List.mem_cons_self))⟩

/-- The variable and the neighbour are read as they are written. -/
theorem parseVariable_ending :
    parseVariable (join [' '] (spelling.ending finder)) = some (finder.variableName, finder.nextTo) := by
  have ends : Ending (spaced (finder.nextTo.map (announced spelling.neighbourQuote)).toList) finder.nextTo := by
    cases finder.nextTo with
    | none => exact .bare
    | some value => exact .neighbour spelling.neighbourQuoted value
  rw [ending]
  cases found : finder.variableName with
  | some name =>
      have named : IsVariable name := writable.variableName name found
      rw [Option.map_some, Option.toList_some, List.singleton_append, join_cons]
      exact parseVariable_append named ends
  | none =>
      cases finder.nextTo with
      | none => rfl
      | some value => exact parseVariable_announced spelling.neighbourQuoted value

/-- The ordinal is read as it is written. -/
theorem takeOrdinal_written :
    takeOrdinal (spelling.written finder) =
      finder.ordinal.map fun n => (ofNat n, join [' '] (spelling.behindOrdinal finder)) := by
  have opens := spelling.opens_behindOrdinal writable
  rw [written]
  cases finder.ordinal with
  | none => exact takeOrdinal_eq_none fun c first => (opens.head? c first).2
  | some n =>
      rw [Option.map_some, Option.toList_some, List.singleton_append, join_cons, List.append_assoc,
        takeOrdinal_ofNat spelling.suffixed, trimStart_spaced (opens.mono fun c both => both.1), Option.map_some]

/-- The text is read as it is written, and so is what stands behind it. -/
theorem takePart_behindOrdinal :
    ∃ afterText, takePart (join [' '] (spelling.behindOrdinal finder)) =
        (finder.text.map fun value => (value, afterText)) ∧
      (finder.text = none → afterText = join [' '] (spelling.behindOrdinal finder)) ∧
      trimStart afterText = join [' '] (spelling.ending finder) := by
  have opens := spelling.opens_ending writable
  have filled : Opens (isBlank · = false) (spelling.ending finder) :=
    opens.mono fun c starts => (startsVariable_apart starts).1
  rw [behindOrdinal]
  cases finder.text with
  | none =>
      exact ⟨_, takePart_eq_none fun c first => (startsVariable_apart (opens.head? c first)).2.1, fun _ => rfl,
        trimStart_of_head? filled.head?⟩
  | some value =>
      refine ⟨spaced (spelling.ending finder), ?_, fun absent => (by cases absent), trimStart_spaced filled⟩
      rw [Option.map_some, Option.toList_some, List.singleton_append, join_cons,
        takePart_encodeQuoted spelling.textQuoted, Option.map_some]

end Spelling

/-- A finder is read back from what is written of it, unless it is only a neighbour or nothing. -/
theorem parse_spelling (spelling : Spelling) {finder : ElementFinder} (writable : Writable finder) :
    parse (spelling.written finder) =
      if finder.ordinal.isNone && finder.text.isNone && finder.variableName.isNone then
        .error (if finder.nextTo.isNone then .badFinder (spelling.written finder)
          else .danglingNextTo (spelling.written finder))
      else .ok finder := by
  have whole := spelling.trimStart_written writable
  obtain ⟨afterText, quoted, unquoted, trimmed⟩ := spelling.takePart_behindOrdinal writable
  refine parse_of_parts (whole.symm ▸ spelling.takeOrdinal_written writable) (fun uncounted => ?_) writable.ordinal
    quoted unquoted (trimmed.symm ▸ spelling.parseVariable_ending writable)
  rw [whole, Spelling.written, uncounted]
  rfl

def quaint : Spelling where
  suffix := ['r', 'd']
  textQuote := '\''
  neighbourQuote := '"'
  suffixed := by decide
  textQuoted := isQuote_apostrophe
  neighbourQuoted := isQuote_quotationMark

def lengthy : ElementFinder where
  ordinal := some 21
  text := some "it's \\ 'x' ".toList
  variableName := some "next to -".toList
  nextTo := some "a \"b\" next to 'c'".toList

/-- A variable that begins like the announcement of a neighbour, in front of one; and a neighbour on its own. -/
theorem parse_spelling_lengthy :
    quaint.written lengthy =
        "21rd 'it\\'s \\\\ \\'x\\' ' next to - next to \"a \\\"b\\\" next to 'c'\"".toList ∧
      Writable lengthy ∧ parse (quaint.written lengthy) = .ok lengthy ∧
      Writable { nextTo := some [] } ∧ parse (quaint.written { nextTo := some [] }) =
        .error (.danglingNextTo "next to \"\"".toList) := by
  have writable : Writable lengthy := by
    refine ⟨fun n same => ?_, fun name same => ?_⟩
    · obtain rfl := Option.some.inj same
      decide
    · obtain rfl := Option.some.inj same
      exact ⟨⟨_, _, rfl, rfl⟩, List.all_eq_true.mp (by decide +kernel), by decide +kernel⟩
  have bare : Writable { nextTo := some [] } :=
    ⟨fun n absent => (by cases absent), fun name absent => (by cases absent)⟩
  exact ⟨by decide +kernel, writable, parse_spelling quaint writable, bare, parse_spelling quaint bare⟩

end Finders

end TestTree.ElementFinder
