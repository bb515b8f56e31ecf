import TestTree.Proofs.Text.Words

namespace TestTree.Text

/-- Nothing in the text starts a comment, and all its strings are closed. -/
structure Settled (text : Text) : Prop where
  uncommented : splitOutside ['/', '/'] .outside text = none
  closed : text.foldl QuoteState.next .outside = .outside

section Search

variable {needle front rest : Text} {state : QuoteState} {c : Char}

/-- What is not found at the start of a text is not found there either if a foreign character follows the text. -/
theorem after?_append_eq_none (absent : after? needle front = none) (foreign : c ∉ needle) (rest : Text) :
    after? needle (front ++ c :: rest) = none := by
  induction needle generalizing front with
  | nil => cases absent
  | cons p needle ih =>
      cases front with
      | nil =>
          have other : p ≠ c := fun same => foreign (same ▸ .head _)
          simp [after?, other]
      | cons d front =>
          rw [after?] at absent
          rw [List.cons_append, after?]
          split
          · next same =>
              rw [if_pos same] at absent
              exact ih absent fun listed => foreign (.tail _ listed)
          · rfl

/-- Where nothing is found in front of a foreign character, the search goes on at that character. -/
theorem splitOutside_append (absent : splitOutside needle state front = none) (foreign : c ∉ needle) (rest : Text) :
    splitOutside needle state (front ++ c :: rest) =
      (splitOutside needle (front.foldl QuoteState.next state) (c :: rest)).map fun (before, behind) =>
        (front ++ before, behind) := by
  induction front generalizing state with
  | nil => simp
  | cons d front ih =>
      rw [splitOutside] at absent
      split at absent
      · cases absent
      · next unfound =>
          have missing :
              ¬ (state = .outside ∧ !isQuote d ∧ (after? needle (d :: (front ++ c :: rest))).isSome) := by
            rintro ⟨outside, plain, found⟩
            refine unfound ⟨outside, plain, Option.isSome_iff_ne_none.mpr fun missing => ?_⟩
            have still : after? needle (d :: front ++ c :: rest) = none := after?_append_eq_none missing foreign rest
            rw [← List.cons_append, still] at found
            cases found
          rw [List.cons_append, splitOutside, if_neg missing, ih (Option.map_eq_none_iff.mp absent), Option.map_map]
          rfl

/-- What is not found in a text is not found in the start of it. -/
theorem splitOutside_of_append (absent : splitOutside needle state (front ++ rest) = none) :
    splitOutside needle state front = none := by
  induction front generalizing state with
  | nil => rfl
  | cons c front ih =>
      rw [List.cons_append, splitOutside] at absent
      split at absent
      · cases absent
      · next unfound =>
          rw [splitOutside, if_neg, ih (Option.map_eq_none_iff.mp absent), Option.map_none]
          rintro ⟨outside, plain, found⟩
          obtain ⟨behind, found⟩ := Option.isSome_iff_exists.mp found
          refine unfound ⟨outside, plain, ?_⟩
          rw [← List.cons_append, after?_eq_some found, List.append_assoc, after?_append]
          rfl

theorem splitOutside_unquoted (unquoted : ∀ d ∈ front, isQuote d = false) (absent : ¬ needle <:+: front) :
    splitOutside needle .outside front = none := by
  induction front with
  | nil => rfl
  | cons d front ih =>
      have plain : QuoteState.next .outside d = .outside := by simp [QuoteState.next, unquoted d (.head _)]
      have later := ih (fun e listed => unquoted e (.tail _ listed)) fun inside =>
        absent (inside.trans (List.suffix_cons d front).isInfix)
      rw [splitOutside, if_neg, plain, later, Option.map_none]
      rintro ⟨-, -, found⟩
      obtain ⟨behind, found⟩ := Option.isSome_iff_exists.mp found
      exact absent ⟨[], behind, (after?_eq_some found).symm⟩

end Search

section Strings

variable {text value rest : Text} {quote : Char}

theorem foldl_next_plain (unquoted : ∀ c ∈ text, isQuote c = false) :
    text.foldl QuoteState.next .outside = .outside := by
  induction text with
  | nil => rfl
  | cons c text ih =>
      have plain : QuoteState.next .outside c = .outside := by simp [QuoteState.next, unquoted c (.head _)]
      rw [List.foldl_cons, plain, ih fun d listed => unquoted d (.tail _ listed)]

theorem foldl_next_inside (taken : takeQuotedBody quote text = some (value, rest)) :
    text.foldl QuoteState.next (.inside quote) = rest.foldl QuoteState.next .outside := by
  fun_induction takeQuotedBody quote text generalizing value with
  | case1 | case2 => cases taken
  | case3 c tail ih =>
      obtain ⟨⟨inner, behind⟩, found, same⟩ := Option.map_eq_some_iff.mp taken
      cases same
      simpa [QuoteState.next] using ih found
  | case4 tail ends escapes =>
      have plain := ne_backslash ends escapes
      cases taken
      simp [QuoteState.next, plain]
  | case5 c tail ends escapes different ih =>
      obtain ⟨⟨inner, behind⟩, found, same⟩ := Option.map_eq_some_iff.mp taken
      cases same
      have plain := ne_backslash ends escapes
      simpa [QuoteState.next, plain, different] using ih found

/-- A scanner that has read a string stands outside strings. -/
theorem foldl_next_string (quotes : isQuote quote = true) (taken : takeQuotedBody quote text = some (value, rest)) :
    (quote :: text).foldl QuoteState.next .outside = rest.foldl QuoteState.next .outside := by
  rw [List.foldl_cons, QuoteState.next, if_pos quotes, foldl_next_inside taken]

/-- Behind a quote that opens no string it never stands outside strings. -/
theorem foldl_next_unclosed (unclosed : takeQuotedBody quote text = none) :
    text.foldl QuoteState.next (.inside quote) ≠ .outside := by
  fun_induction takeQuotedBody quote text with
  | case1 => simp
  | case2 => simp [QuoteState.next]
  | case3 c tail ih => simpa [QuoteState.next] using ih (Option.map_eq_none_iff.mp unclosed)
  | case4 => cases unclosed
  | case5 c tail ends escapes different ih =>
      have plain := ne_backslash ends escapes
      simpa [QuoteState.next, plain, different] using ih (Option.map_eq_none_iff.mp unclosed)

end Strings

variable {text front rest gap : Text} {c : Char}

theorem next_of_isBlank (blank : isBlank c = true) : QuoteState.next .outside c = .outside := by
  have unquoted : isQuote c = false := isQuote_of_isBlank blank
  simp [QuoteState.next, unquoted]

theorem settled_nil : Settled [] := ⟨rfl, rfl⟩

theorem settled_of_plain (unquoted : ∀ c ∈ text, isQuote c = false) (uncommented : ¬ ['/', '/'] <:+: text) :
    Settled text :=
  ⟨splitOutside_unquoted unquoted uncommented, foldl_next_plain unquoted⟩

/-- White space keeps a text apart from what stands in front of it. -/
theorem Settled.append (settled : Settled front) (blank : isBlank c = true) (behind : Settled rest) :
    Settled (front ++ c :: rest) := by
  have slashless : c ≠ '/' := by
    rintro rfl
    exact absurd blank (by decide)
  constructor
  · have missing : after? ['/', '/'] (c :: rest) = none := by simp [after?, Ne.symm slashless]
    rw [splitOutside_append settled.uncommented (by simpa using slashless), settled.closed, splitOutside,
      if_neg (by simp [missing]), next_of_isBlank blank, behind.uncommented, Option.map_none, Option.map_none]
  · rw [List.foldl_append, settled.closed, List.foldl_cons, next_of_isBlank blank, behind.closed]

theorem Settled.behind (settled : Settled text) (blank : ∀ c ∈ gap, isBlank c = true) : Settled (gap ++ text) := by
  induction gap with
  | nil => exact settled
  | cons c gap ih =>
      exact settled_nil.append (blank c (.head _)) (ih fun d listed => blank d (.tail _ listed))

theorem Settled.of_cons (settled : Settled (c :: rest)) (blank : isBlank c = true) : Settled rest := by
  obtain ⟨uncommented, closed⟩ := settled
  rw [List.foldl_cons, next_of_isBlank blank] at closed
  rw [splitOutside] at uncommented
  split at uncommented
  · cases uncommented
  · rw [next_of_isBlank blank] at uncommented
    exact ⟨Option.map_eq_none_iff.mp uncommented, closed⟩

theorem Settled.trimStart (settled : Settled text) : Settled (trimStart text) := by
  induction text with
  | nil => exact settled
  | cons c rest ih =>
      cases blank : isBlank c with
      | true =>
          rw [Text.trimStart, List.dropWhile_cons_of_pos blank]
          exact ih (settled.of_cons blank)
      | false => rwa [trimStart_cons blank]

end TestTree.Text
