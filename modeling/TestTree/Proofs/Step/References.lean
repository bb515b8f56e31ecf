import TestTree.Step.Reference

namespace TestTree.Reference

/-- A reference that can be read wherever it stands. -/
structure Slot extends Reference where
  named : name ≠ []
  braceless : name.any isBrace = false

/-- A stretch of a template. -/
inductive Part
  | plain (text : Text) (braceless : text.any isBrace = false)
  | slot (reference : Slot)

namespace Part

def written : Part → Text
  | plain text _ => text
  | slot reference => reference.render

def pieces : Part → List Piece
  | plain text _ => text.map .plain
  | slot reference => [.reference reference.toReference]

end Part

def written (template : List Part) : Text := template.flatMap Part.written

variable {name text behind : Text} {reference : Reference} {c : Char}

/-- A name ends where a brace stands. -/
theorem spanName_append (braceless : name.any isBrace = false) (rest : Text) :
    spanName (name ++ '}' :: rest) = (name, '}' :: rest) := by
  have inside : ∀ c ∈ name, (!isBrace c) = true := by simpa using braceless
  rw [spanName, List.takeWhile_append_of_pos inside, List.dropWhile_append_of_pos inside,
    List.takeWhile_cons_of_neg (by decide), List.dropWhile_cons_of_neg (by decide), List.append_nil]

theorem takeBraced_render (slot : Slot) (rest : Text) :
    takeBraced (slot.render ++ rest) = some (slot.toReference, rest) := by
  obtain ⟨⟨name, isLocal⟩, named, braceless⟩ := slot
  dsimp only at named braceless
  have span := spanName_append braceless
  obtain ⟨first, tail, rfl⟩ := List.exists_cons_of_ne_nil named
  have single : first ≠ '{' := by
    rintro rfl
    simp [isBrace] at braceless
  cases isLocal with
  | false =>
      have written : (Reference.mk (first :: tail) false).render ++ rest = '{' :: first :: (tail ++ '}' :: rest) := by
        simp [render]
      have read : spanName (first :: (tail ++ '}' :: rest)) = (first :: tail, '}' :: rest) := span rest
      simp [written, takeBraced, single, read]
  | true =>
      have written : (Reference.mk (first :: tail) true).render ++ rest =
          '{' :: '{' :: (first :: tail ++ '}' :: '}' :: rest) := by
        simp [render]
      simp only [written, takeBraced, span]

theorem takeBraced_plain (plain : isBrace c = false) (rest : Text) : takeBraced (c :: rest) = none := by
  have other : c ≠ '{' := by
    rintro rfl
    exact absurd plain (by decide)
  simp [takeBraced, other]

theorem pieces_cons (plain : takeBraced (c :: text) = none) (allowEmpty : Bool) :
    pieces allowEmpty (c :: text) = .plain c :: pieces allowEmpty text := by
  rw [pieces]
  split
  · next found => cases plain.symm.trans found
  · rfl

theorem pieces_of_takeBraced (taken : takeBraced text = some (reference, behind)) (named : reference.name ≠ [])
    (allowEmpty : Bool) : pieces allowEmpty text = .reference reference :: pieces allowEmpty behind := by
  cases text with
  | nil => cases taken
  | cons c rest =>
      rw [pieces]
      split
      · next found =>
        cases found.symm.trans taken
        rw [if_pos (by simp [named])]
      · next missing => cases missing.symm.trans taken

theorem pieces_plain (allowEmpty : Bool) (braceless : text.any isBrace = false) (rest : Text) :
    pieces allowEmpty (text ++ rest) = text.map .plain ++ pieces allowEmpty rest := by
  induction text with
  | nil => rfl
  | cons c text ih =>
      obtain ⟨first, others⟩ := Bool.or_eq_false_iff.mp braceless
      rw [List.cons_append, pieces_cons (takeBraced_plain first _), ih others]
      rfl

/-- A template is cut into its references and its plain characters. -/
theorem pieces_written (allowEmpty : Bool) (template : List Part) :
    pieces allowEmpty (written template) = template.flatMap Part.pieces := by
  induction template with
  | nil => simp [written, pieces]
  | cons part template ih =>
      rw [written, List.flatMap_cons, ← written, List.flatMap_cons, ← ih]
      cases part with
      | plain text braceless => exact pieces_plain allowEmpty braceless _
      | slot reference => exact pieces_of_takeBraced (takeBraced_render reference _) reference.named allowEmpty

end TestTree.Reference
