namespace TestTree

/-- A text is the list of its characters, so every scanner is a structural recursion on it. -/
abbrev Text := List Char

instance : Coe String Text := ⟨String.toList⟩

namespace Text

/-- The number of bytes of the UTF-8 form. -/
def utf8Size : Text → Nat
  | [] => 0
  | c :: rest => c.utf8Size + utf8Size rest

@[simp] theorem utf8Size_append (a b : Text) : utf8Size (a ++ b) = utf8Size a + utf8Size b := by
  induction a with
  | nil => simp [utf8Size]
  | cons c rest ih => simp [utf8Size, ih, Nat.add_assoc]

theorem length_le_utf8Size (text : Text) : text.length ≤ utf8Size text := by
  induction text with
  | nil => exact Nat.le_refl 0
  | cons c rest ih =>
      have some : 0 < c.utf8Size := c.utf8Size_pos
      rw [List.length_cons, utf8Size]
      omega

/-- What follows `lead`, if the text starts with it. -/
def after? : Text → Text → Option Text
  | [], text => some text
  | _ :: _, [] => none
  | p :: lead, c :: text => if p = c then after? lead text else none

theorem after?_eq_some {lead text rest : Text} (found : after? lead text = some rest) :
    text = lead ++ rest := by
  induction lead generalizing text with
  | nil => simpa [after?] using found
  | cons p lead ih =>
      cases text with
      | nil => simp [after?] at found
      | cons c text =>
          simp only [after?] at found
          split at found
          · next same => rw [same, ih found]; rfl
          · simp at found

/-- The stretches between the characters that satisfy `isBreak`; one more than there are breaks. -/
def pieces (isBreak : Char → Bool) : Text → List Text
  | [] => [[]]
  | c :: rest =>
      if isBreak c then [] :: pieces isBreak rest
      else
        match pieces isBreak rest with
        | [] => [[c]]
        | first :: others => (c :: first) :: others

/-- The texts with `separator` between neighbours. -/
def join (separator : Text) : List Text → Text
  | [] => []
  | [text] => text
  | text :: next :: others => text ++ separator ++ join separator (next :: others)

/-- Every line without its line feed, and without one carriage return just before that. A line feed
at the very end starts no further line, and a carriage return that no line feed follows stays. -/
def lines (text : Text) : List Text :=
  close (pieces (· = '\n') text)
where
  close : List Text → List Text
    | [] => []
    | [last] => if last.isEmpty then [] else [last]
    | line :: next :: others =>
        (if line.getLast? = some '\r' then line.dropLast else line) :: close (next :: others)

/-- The text up to the first `stop` and what follows that character. -/
def splitAtChar (stop : Char) : Text → Option (Text × Text)
  | [] => none
  | c :: rest =>
      if c = stop then some ([], rest)
      else (splitAtChar stop rest).map fun (before, behind) => (c :: before, behind)

def ofNat (n : Nat) : Text := (toString n).toList

end Text

end TestTree
