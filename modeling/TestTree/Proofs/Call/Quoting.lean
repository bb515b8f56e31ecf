import TestTree.Proofs.Call.Brackets
import TestTree.Proofs.Text.Settled

namespace TestTree

namespace ElementFinder

open Text

/-- A text that starts further on has its brackets further on. -/
theorem segments_shift (shift : Nat) (text : Text) :
    (∀ state offset, segments state (offset + shift) text =
        (segments state offset text).map fun (start, content) => (start + shift, content)) ∧
      ∀ start offset content, segments.bracket (start + shift) (offset + shift) content text =
        (segments.bracket start offset content text).map fun (start, content) => (start + shift, content) := by
  induction text with
  | nil => exact ⟨fun _ _ => rfl, fun _ _ _ => rfl⟩
  | cons c text ih =>
      obtain ⟨outside, inside⟩ := ih
      constructor
      · intro state offset
        rw [segments, segments, Nat.add_right_comm offset shift 1, Nat.add_right_comm offset shift c.utf8Size]
        split
        · exact inside offset (offset + 1) []
        · exact outside (state.next c) (offset + c.utf8Size)
      · intro start offset content
        rw [segments.bracket, segments.bracket, Nat.add_right_comm offset shift 1,
          Nat.add_right_comm offset shift c.utf8Size]
        split
        · rw [outside, List.map_cons]
        · exact inside start (offset + c.utf8Size) (c :: content)

/-- Brackets behind a transparent text are as far behind as it is long. -/
theorem spans_append {token : Text} (transparent : Transparent token) (rest : Text) :
    spans (token ++ rest) =
      (spans rest).map fun (start, stop) => (start + token.utf8Size, stop + token.utf8Size) := by
  rw [spans, segments_append transparent.unbracketed, transparent.closed, (segments_shift token.utf8Size rest).1,
    spans, List.map_map, List.map_map]
  apply List.map_congr_left
  rintro ⟨start, content⟩ -
  simp only [Function.comp_apply, Prod.mk.injEq, true_and]
  omega

end ElementFinder

namespace Text

open ElementFinder

/-- A token stands for a value wherever it is read, and scanners pass over it. -/
structure Shields (token value rest : Text) : Prop where
  taken : takeQuoted (token ++ rest) = some (value, rest)
  unquoted : unquote token = some value
  found : ∀ lead needle : Text, (∀ c ∈ lead, isQuote c = false) → (∀ c ∈ needle, isQuote c = false) →
    ¬ needle <:+: lead → findOutsideQuotes (lead ++ token ++ rest) needle =
      (findOutsideQuotes rest needle).map (· + (lead ++ token).utf8Size)
  bracketed : ∀ lead : Text, (∀ c ∈ lead, isQuote c = false) → '[' ∉ lead →
    spans (lead ++ token ++ rest) = (spans rest).map fun (start, stop) =>
      (start + (lead ++ token).utf8Size, stop + (lead ++ token).utf8Size)

variable {quote : Char} {lead needle : Text}

/-- Nothing is found in a string, whatever it holds. -/
theorem splitOutside_encodeQuoted (quotes : isQuote quote = true) (unquoted : ∀ c ∈ lead, isQuote c = false)
    (plain : ∀ c ∈ needle, isQuote c = false) (absent : ¬ needle <:+: lead) (value rest : Text) :
    splitOutside needle .outside (lead ++ encodeQuoted quote value ++ rest) =
      (splitOutside needle .outside rest).map fun (before, behind) =>
        (lead ++ encodeQuoted quote value ++ before, behind) := by
  have foreign : quote ∉ needle := fun listed => Bool.noConfusion ((plain quote listed).symm.trans quotes)
  obtain ⟨read, same, split⟩ := splitOutside_string quotes needle (takeQuotedBody_escape quotes value rest)
  obtain rfl := List.append_cancel_right same
  have parts : lead ++ encodeQuoted quote value ++ rest =
      lead ++ quote :: (escape quote value ++ quote :: rest) := by
    simp [encodeQuoted]
  rw [parts, splitOutside_plain unquoted absent foreign, split, Option.map_map]
  simp [Function.comp_def, encodeQuoted]

theorem transparent_encodeQuoted (quotes : isQuote quote = true) (unquoted : ∀ c ∈ lead, isQuote c = false)
    (unbracketed : '[' ∉ lead) (value : Text) : Transparent (lead ++ encodeQuoted quote value) := by
  constructor
  · have absent : ¬ ['['] <:+: lead := fun inside => unbracketed (inside.subset (.head _))
    have plain : ∀ c ∈ ['['], isQuote c = false := by simp [isQuote]
    have split := splitOutside_encodeQuoted quotes unquoted plain absent value []
    rwa [List.append_nil] at split
  · rw [List.foldl_append, foldl_next_plain unquoted, encodeQuoted,
      foldl_next_string quotes (takeQuotedBody_escape quotes value []), List.foldl_nil]

/-- Quoting is undone by the reader, and no scanner looks into a string. -/
theorem shields_encodeQuoted (quotes : isQuote quote = true) (value rest : Text) :
    Shields (encodeQuoted quote value) value rest where
  taken := takeQuoted_encodeQuoted quotes value rest
  unquoted := unquote_encodeQuoted quotes value
  found lead needle unquoted plain absent := by
    rw [findOutsideQuotes, splitOutside_encodeQuoted quotes unquoted plain absent, findOutsideQuotes, Option.map_map,
      Option.map_map]
    congr 1
    funext ⟨before, behind⟩
    exact (utf8Size_append (lead ++ encodeQuoted quote value) before).trans (Nat.add_comm _ _)
  bracketed lead unquoted unbracketed :=
    spans_append (transparent_encodeQuoted quotes unquoted unbracketed value) rest

/-- A sign with quotes, a backslash, slashes and a bracket in it. -/
def sign : Text := "it's \"\\\" // [é]"

theorem shields_encodeQuoted_sign :
    isQuote '\'' = true ∧ encodeQuoted '\'' sign = "'it\\'s \"\\\\\" // [é]'".toList ∧
      Shields (encodeQuoted '\'' sign) sign " on [1st] // it" ∧
      findOutsideQuotes ("Nail ]" ++ encodeQuoted '\'' sign ++ " on [1st] // it") "//" = some 36 ∧
      spans ("Nail ]" ++ encodeQuoted '\'' sign ++ " on [1st] // it") = [(30, 35)] := by
  have shields : Shields (encodeQuoted '\'' sign) sign " on [1st] // it" := shields_encodeQuoted rfl sign _
  refine ⟨rfl, by decide +kernel, shields, ?_, ?_⟩
  · rw [shields.found "Nail ]" "//" (by simp; decide) (by simp; decide) (by decide)]
    decide +kernel
  · rw [shields.bracketed "Nail ]" (by simp; decide) (by decide)]
    decide +kernel

end Text

end TestTree
