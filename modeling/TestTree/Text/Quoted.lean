import TestTree.Text.Blank

namespace TestTree.Text

def isQuote (c : Char) : Bool := c == '\'' || c == '"'

/-- Reads up to the closing quote: the contents with escapes undone, and what follows. -/
def takeQuotedBody (quote : Char) : Text → Option (Text × Text)
  | [] => none
  | ['\\'] => none
  | '\\' :: c :: rest => (takeQuotedBody quote rest).map fun (value, behind) => (c :: value, behind)
  | c :: rest =>
      if c = quote then some ([], rest)
      else (takeQuotedBody quote rest).map fun (value, behind) => (c :: value, behind)

def takeQuoted : Text → Option (Text × Text)
  | [] => none
  | quote :: rest => if isQuote quote then takeQuotedBody quote rest else none

theorem length_of_takeQuotedBody {quote : Char} {text value rest : Text}
    (taken : takeQuotedBody quote text = some (value, rest)) : rest.length < text.length := by
  fun_induction takeQuotedBody quote text generalizing value with
  | case1 => simp at taken
  | case2 => simp at taken
  | case3 c tail ih =>
      simp only [Option.map_eq_some_iff] at taken
      obtain ⟨⟨inner, behind⟩, found, same⟩ := taken
      simp only [Prod.mk.injEq] at same
      obtain ⟨-, rfl⟩ := same
      have := ih found
      simp only [List.length_cons]
      omega
  | case4 => simp_all
  | case5 c tail _ _ _ ih =>
      simp only [Option.map_eq_some_iff] at taken
      obtain ⟨⟨inner, behind⟩, found, same⟩ := taken
      simp only [Prod.mk.injEq] at same
      obtain ⟨-, rfl⟩ := same
      have := ih found
      simp only [List.length_cons]
      omega

theorem length_of_takeQuoted {text value rest : Text}
    (taken : takeQuoted text = some (value, rest)) : rest.length < text.length := by
  cases text with
  | nil => simp [takeQuoted] at taken
  | cons quote tail =>
      simp only [takeQuoted] at taken
      split at taken
      · have := length_of_takeQuotedBody taken
        simp only [List.length_cons]
        omega
      · simp at taken

/-- The contents of a text that is one quoted string and nothing else. -/
def unquote (text : Text) : Option Text :=
  match takeQuoted text with
  | some (value, []) => some value
  | _ => none

/-- Puts a backslash before every backslash and every `quote`. -/
def escape (quote : Char) : Text → Text
  | [] => []
  | c :: rest => if c = '\\' ∨ c = quote then '\\' :: c :: escape quote rest else c :: escape quote rest

/-- The quoted string with these contents. -/
def encodeQuoted (quote : Char) (value : Text) : Text := quote :: (escape quote value ++ [quote])

def hasQuote (text : Text) : Bool := text.any isQuote

/-- Where a scanner stands with respect to quoted strings. -/
inductive QuoteState
  | outside
  | inside (quote : Char)
  | escaped (quote : Char)
deriving DecidableEq, Repr

def QuoteState.next : QuoteState → Char → QuoteState
  | .outside, c => if isQuote c then .inside c else .outside
  | .inside quote, c => if c = '\\' then .escaped quote else if c = quote then .outside else .inside quote
  | .escaped quote, _ => .inside quote

/-- Splits before the first occurrence of `needle` that starts outside quoted strings and is not
itself a quote. -/
def splitOutside (needle : Text) (state : QuoteState) : Text → Option (Text × Text)
  | [] => none
  | c :: rest =>
      if state = .outside ∧ !isQuote c ∧ (after? needle (c :: rest)).isSome then some ([], c :: rest)
      else (splitOutside needle (state.next c) rest).map fun (before, behind) => (c :: before, behind)

/-- The byte offset of the first occurrence of `needle` outside quoted strings. -/
def findOutsideQuotes (text needle : Text) : Option Nat :=
  (splitOutside needle .outside text).map fun (before, _) => before.utf8Size

end TestTree.Text
