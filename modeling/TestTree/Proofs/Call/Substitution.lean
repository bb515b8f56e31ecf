import Mathlib.Data.List.Forall2
import TestTree.Proofs.Step.References
import TestTree.Proofs.Text.Words
import TestTree.Variables

namespace TestTree.Variables

open Text Reference

variable {scope : Variables} {reference : Reference} {value : Text}

/-- The value of a reference: that of the global variable of its name, or that of the innermost frame that has a local
one. White space around the name does not count. -/
inductive StandsFor (scope : Variables) : Reference → Text → Prop
  | global {name value : Text} (found : scope.globals.get? (trim name) = some value) :
      StandsFor scope ⟨name, false⟩ value
  | inFrame {name value : Text} {outer inner : List Bindings} {frame : Bindings}
      (frames : scope.frames = outer ++ frame :: inner) (found : frame.get? (trim name) = some value)
      (absent : ∀ deeper ∈ inner, deeper.get? (trim name) = none) : StandsFor scope ⟨name, true⟩ value

theorem get?_eq_some_iff : scope.get? reference.name reference.isLocal = some value ↔ StandsFor scope reference value := by
  obtain ⟨name, isLocal⟩ := reference
  cases isLocal with
  | false =>
      constructor
      · exact .global
      · rintro ⟨found⟩
        exact found
  | true =>
      rw [get?, if_pos rfl, List.findSome?_eq_some_iff]
      constructor
      · rintro ⟨inner, frame, outer, turned, found, absent⟩
        have frames := congrArg List.reverse turned
        rw [List.reverse_reverse, List.reverse_append, List.reverse_cons, List.append_assoc, List.singleton_append]
          at frames
        exact .inFrame frames found fun deeper listed => absent deeper (List.mem_reverse.mp listed)
      · intro stands
        cases stands with
        | @inFrame _ _ outer inner frame frames found absent =>
            refine ⟨inner.reverse, frame, outer.reverse, ?_, found, fun deeper listed =>
              absent deeper (List.mem_reverse.mp listed)⟩
            rw [frames, List.reverse_append, List.reverse_cons, List.append_assoc, List.singleton_append]

def Known (scope : Variables) (reference : Reference) : Prop := ∃ value, StandsFor scope reference value

theorem known_iff : Known scope reference ↔ (scope.get? reference.name reference.isLocal).isSome := by
  rw [Option.isSome_iff_exists]
  exact exists_congr fun _ => get?_eq_some_iff.symm

instance (scope : Variables) (reference : Reference) : Decidable (Known scope reference) :=
  decidable_of_iff _ known_iff.symm

/-- What a part of a template becomes if it is known. -/
inductive Fills (scope : Variables) : Part → Text → Prop
  | plain {text : Text} {braceless : text.any isBrace = false} : Fills scope (.plain text braceless) text
  | known {slot : Slot} {value : Text} (stands : StandsFor scope slot.toReference value) : Fills scope (.slot slot) value

/-- What is shown in the place of a part, known or not. -/
inductive Shows (scope : Variables) : Part → Text → Prop
  | filled {part : Part} {text : Text} (fills : Fills scope part text) : Shows scope part text
  | kept {slot : Slot} (unknown : ¬ Known scope slot.toReference) : Shows scope (.slot slot) slot.render

/-- All that substitution makes of a template. -/
structure Substitutes (scope : Variables) (template : List Part) : Prop where
  known : (∀ slot, .slot slot ∈ template → Known scope slot.toReference) →
    ∃ values, List.Forall₂ (Fills scope) template values ∧
      scope.substitute (written template) = .ok values.flatten ∧
      scope.substituteKnown (written template) = values.flatten
  unknown : ∀ before missing behind, template = before ++ .slot missing :: behind →
    (∀ slot, .slot slot ∈ before → Known scope slot.toReference) → ¬ Known scope missing.toReference →
      scope.substitute (written template) = .error ⟨trim missing.name, missing.isLocal⟩
  shown : ∃ texts, List.Forall₂ (Shows scope) template texts ∧
    scope.substituteKnown (written template) = texts.flatten
  quoted : ∀ quote, isQuote quote = true →
    scope.resolveInput (encodeQuoted quote (written template)) = scope.substitute (written template)

theorem lookup_of_standsFor (stands : StandsFor scope reference value) : scope.lookup reference = .ok value := by
  rw [lookup, get?_eq_some_iff.mpr stands]
  rfl

theorem get?_of_unknown (unknown : ¬ Known scope reference) : scope.get? reference.name reference.isLocal = none :=
  Option.not_isSome_iff_eq_none.mp fun found => unknown (known_iff.mpr found)

theorem lookup_of_unknown (unknown : ¬ Known scope reference) :
    scope.lookup reference = .error ⟨trim reference.name, reference.isLocal⟩ := by
  rw [lookup, get?_of_unknown unknown]
  rfl

section Parts

variable {template before : List Part} {part : Part} {texts : List Text} {text : Text} {pieces : List Piece}

theorem substitutePieces_plain (text : Text) (pieces : List Piece) :
    scope.substitutePieces (text.map .plain ++ pieces) = (scope.substitutePieces pieces).map (text ++ ·) := by
  induction text with
  | nil => cases found : scope.substitutePieces pieces <;> simp [found, Except.map]
  | cons c text ih =>
      rw [List.map_cons, List.cons_append, substitutePieces, ih]
      cases scope.substitutePieces pieces <;> rfl

theorem substitutePieces_part (fills : Fills scope part value) (pieces : List Piece) :
    scope.substitutePieces (part.pieces ++ pieces) = (scope.substitutePieces pieces).map (value ++ ·) := by
  cases fills with
  | plain => exact substitutePieces_plain value pieces
  | known stands =>
      rw [Part.pieces, List.singleton_append, substitutePieces, lookup_of_standsFor stands]
      cases scope.substitutePieces pieces <;> rfl

/-- Known parts become their values, whatever follows them. -/
theorem substitutePieces_parts (fills : List.Forall₂ (Fills scope) before texts) (pieces : List Piece) :
    scope.substitutePieces (before.flatMap Part.pieces ++ pieces) =
      (scope.substitutePieces pieces).map (texts.flatten ++ ·) := by
  induction fills with
  | nil => cases found : scope.substitutePieces pieces <;> simp [found, Except.map]
  | cons first _ ih =>
      rw [List.flatMap_cons, List.append_assoc, substitutePieces_part first, ih]
      cases scope.substitutePieces pieces <;> simp [Except.map]

/-- If each part becomes something, so does the row of them. -/
theorem exists_forall₂ {becomes : Part → Text → Prop} (each : ∀ part ∈ template, ∃ text, becomes part text) :
    ∃ texts, List.Forall₂ becomes template texts := by
  induction template with
  | nil => exact ⟨[], .nil⟩
  | cons part template ih =>
      obtain ⟨text, becoming⟩ := each part (.head _)
      obtain ⟨texts, later⟩ := ih fun other listed => each other (.tail _ listed)
      exact ⟨text :: texts, .cons becoming later⟩

theorem exists_fills (known : ∀ slot, .slot slot ∈ template → Known scope slot.toReference) :
    ∃ values, List.Forall₂ (Fills scope) template values := by
  refine exists_forall₂ fun part listed => ?_
  cases part with
  | plain text braceless => exact ⟨text, .plain⟩
  | slot slot =>
      obtain ⟨value, stands⟩ := known slot listed
      exact ⟨value, .known stands⟩

theorem exists_shows (scope : Variables) (template : List Part) :
    ∃ texts, List.Forall₂ (Shows scope) template texts := by
  refine exists_forall₂ fun part _ => ?_
  cases part with
  | plain text braceless => exact ⟨text, .filled .plain⟩
  | slot slot =>
      by_cases known : Known scope slot.toReference
      · obtain ⟨value, stands⟩ := known
        exact ⟨value, .filled (.known stands)⟩
      · exact ⟨slot.render, .kept known⟩

theorem substituteKnown_shown (shows : List.Forall₂ (Shows scope) template texts) :
    scope.substituteKnown (written template) = texts.flatten := by
  rw [substituteKnown, pieces_written]
  induction shows with
  | nil => rfl
  | cons first _ ih =>
      rw [List.flatMap_cons, List.flatMap_append, ih, List.flatten_cons]
      congr 1
      rcases first with ⟨_ | stands⟩ | unknown
      · simp [Part.pieces, List.flatMap_map]
      · simp [Part.pieces, get?_eq_some_iff.mpr stands]
      · simp [Part.pieces, get?_of_unknown unknown]

end Parts

/-- Substitution is simultaneous, and exact where something is unknown. -/
theorem substitutes (scope : Variables) (template : List Part) : Substitutes scope template where
  known known := by
    obtain ⟨values, fills⟩ := exists_fills known
    refine ⟨values, fills, ?_, substituteKnown_shown (fills.imp fun _ _ => .filled)⟩
    have whole := substitutePieces_parts fills []
    rw [List.append_nil] at whole
    rw [substitute, pieces_written, whole]
    simp [substitutePieces, Except.map, pure, Except.pure]
  unknown before missing behind split known unknown := by
    obtain ⟨values, fills⟩ := exists_fills known
    rw [substitute, pieces_written, split, List.flatMap_append, substitutePieces_parts fills, List.flatMap_cons,
      Part.pieces, List.singleton_append, substitutePieces, lookup_of_unknown unknown]
    rfl
  shown := by
    obtain ⟨texts, shows⟩ := exists_shows scope template
    exact ⟨texts, shows, substituteKnown_shown shows⟩
  quoted quote quotes := by rw [resolveInput, unquote_encodeQuoted quotes]

def mailbox : Variables where
  globals := [("user", "\x7b\x7bpage\x7d\x7d"), ("page", "cover")]
  frames := [[("page", "outer"), ("only", "\x7buser\x7d")], [("page", "inner")]]

/-- References side by side, with white space in a name, and values that look like references. -/
def letter : List Part := [
  .plain "Dear " (by decide), .slot ⟨⟨"user", false⟩, by decide, by decide⟩,
  .slot ⟨⟨" page ", true⟩, by decide, by decide⟩, .plain "'s" (by decide),
  .slot ⟨⟨"only", true⟩, by decide, by decide⟩]

def unaddressed : List Part :=
  letter ++ [.slot ⟨⟨"only ", false⟩, by decide, by decide⟩, .slot ⟨⟨"user", true⟩, by decide, by decide⟩]

theorem substitutes_letter :
    written letter = "Dear \x7buser\x7d\x7b\x7b page \x7d\x7d's\x7b\x7bonly\x7d\x7d".toList ∧
      (∀ slot, .slot slot ∈ letter → Known mailbox slot.toReference) ∧
      mailbox.substitute (written letter) = .ok "Dear \x7b\x7bpage\x7d\x7dinner's\x7buser\x7d" ∧
      Substitutes mailbox unaddressed ∧
      mailbox.substitute (written unaddressed) = .error ⟨"only", false⟩ ∧
      mailbox.substituteKnown (written unaddressed) =
        "Dear \x7b\x7bpage\x7d\x7dinner's\x7buser\x7d\x7bonly \x7d\x7b\x7buser\x7d\x7d".toList := by
  have known : ∀ slot, .slot slot ∈ letter → Known mailbox slot.toReference := by
    intro slot listed
    simp only [letter, List.mem_cons, Part.slot.injEq, reduceCtorEq, List.not_mem_nil, false_or, or_false] at listed
    rcases listed with rfl | rfl | rfl <;> decide +kernel
  have whole := substitutes mailbox unaddressed
  exact ⟨by decide +kernel, known, by decide +kernel, whole,
    whole.unknown letter _ _ rfl known (by decide +kernel), by decide +kernel⟩

end TestTree.Variables
