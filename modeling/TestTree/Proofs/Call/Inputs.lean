import Mathlib.Data.List.Chain
import TestTree.Call.Resolution
import TestTree.Proofs.Branch.Expands
import TestTree.Proofs.Text.Casing
import TestTree.Step.Reference

/-!
The inputs of a name. Cutting a name into pieces loses none of it, and its canonical form has the word `{}` once for
each input: a brace that is no part of an input never stands right in front of its partner. So a call has as many
inputs as the declaration it refers to has parameters, and every parameter is bound.
-/
namespace TestTree

namespace CallName

open Text

variable {c : Char} {text token behind closer : Text}

section Cutting

theorem eq_append_of_splitBehind (split : splitBehind closer text = some (token, behind)) :
    text = token ++ behind := by
  induction text generalizing token with
  | nil => cases split
  | cons c rest ih =>
      rw [splitBehind] at split
      split at split
      · next found =>
        cases split
        exact after?_eq_some found
      · obtain ⟨⟨inner, tail⟩, found, same⟩ := Option.map_eq_some_iff.mp split
        cases same
        rw [ih found, List.cons_append]

theorem exists_eq_append_of_takeQuoted {value : Text} (taken : takeQuoted text = some (value, behind)) :
    ∃ read, text = read ++ behind := by
  cases text with
  | nil => cases taken
  | cons quote tail =>
      rw [takeQuoted] at taken
      split at taken
      · obtain ⟨read, rfl, -⟩ := splitOutside_inside [] taken
        exact ⟨quote :: (read ++ [quote]), by simp⟩
      · cases taken

/-- An input is what stands in front of the rest of the name. -/
theorem eq_append_of_takeInput (taken : takeInput text = some (token, behind)) : text = token ++ behind := by
  rw [takeInput.eq_def] at taken
  split at taken
  · cases taken
  · next c rest =>
    split at taken
    · obtain ⟨⟨value, tail⟩, found, same⟩ := Option.map_eq_some_iff.mp taken
      cases same
      obtain ⟨read, whole⟩ := exists_eq_append_of_takeQuoted found
      simp [whole]
    · split at taken
      · split at taken <;> exact eq_append_of_splitBehind taken
      · split at taken
        · exact eq_append_of_splitBehind taken
        · cases taken

theorem pieces_of_takeInput (taken : takeInput text = some (token, behind)) :
    pieces text = .input token :: pieces behind := by
  cases text with
  | nil => cases taken
  | cons c rest =>
      rw [pieces]
      split
      · next found =>
        cases found.symm.trans taken
        rfl
      · next missing => cases missing.symm.trans taken

theorem pieces_cons (plain : takeInput (c :: text) = none) :
    pieces (c :: text) = .plain c :: pieces text := by
  rw [pieces]
  split
  · next found => cases found.symm.trans plain
  · rfl

def Piece.written : Piece → Text
  | .input token => token
  | .plain c => [c]

/-- A name is made of its pieces, as they are written. -/
theorem written_pieces (text : Text) : (pieces text).flatMap Piece.written = text := by
  fun_induction pieces text with
  | case1 => rfl
  | case2 c rest token behind taken ih =>
      rw [List.flatMap_cons, ih, eq_append_of_takeInput taken]
      rfl
  | case3 c rest plain ih =>
      rw [List.flatMap_cons, ih]
      rfl

end Cutting

section Counting

def placeholder : Text := ['{', '}']

def Piece.input? : Piece → Option Text
  | .input token => some token
  | .plain _ => none

def Piece.isInput (piece : Piece) : Bool := piece.input?.isSome

theorem inputs_eq (text : Text) : inputs text = (pieces text).filterMap Piece.input? :=
  congrArg (List.filterMap · (pieces text)) (funext fun piece => by cases piece <;> rfl)

theorem length_inputs (text : Text) : (inputs text).length = (pieces text).countP Piece.isInput := by
  rw [inputs_eq, List.length_filterMap_eq_countP]
  rfl

/-- An opening brace on its own is not closed by the next character. -/
def Piece.Apart (piece next : Piece) : Prop := ¬ (piece = .plain '{' ∧ next = .plain '}')

theorem isChain_pieces (text : Text) : (pieces text).IsChain Piece.Apart := by
  fun_induction pieces text with
  | case1 => exact .nil
  | case2 c rest token behind taken ih =>
      refine List.isChain_cons.mpr ⟨?_, ih⟩
      rintro next - ⟨⟨⟩, -⟩
  | case3 c rest plain ih =>
      refine List.isChain_cons.mpr ⟨?_, ih⟩
      rintro next first ⟨opens, rfl⟩
      obtain rfl := Piece.plain.inj opens
      obtain ⟨others, split⟩ := List.head?_eq_some_iff.mp first
      have closes : rest = '}' :: others.flatMap Piece.written := by
        rw [← written_pieces rest, split]
        rfl
      rw [closes] at plain
      simp [takeInput, isQuote, splitBehind, after?] at plain

theorem lower_eq_placeholder (same : lower text = placeholder) : text = placeholder := by
  have unchanged : ∀ c ∈ text, lowerChar c = [c] := by
    intro c listed
    obtain ⟨d, within⟩ := List.exists_mem_of_ne_nil _ (lowerChar_ne_nil c)
    have brace : d ∈ placeholder := same ▸ List.mem_flatMap.mpr ⟨c, listed, within⟩
    have uncased : isUncased d = true := by
      rcases List.mem_cons.mp brace with rfl | last
      · decide
      · obtain rfl := List.mem_singleton.mp last
        decide
    obtain rfl := eq_of_mem_lowerChar within uncased
    exact lowerChar_of_isUncased uncased
  rw [← same, lower, List.flatMap_congr unchanged, List.flatMap_singleton']

theorem words_placeholder (rest : Text) : words (placeholder ++ ' ' :: rest) = placeholder :: words rest :=
  words_filled_append (by decide) (List.forall_mem_cons.mpr ⟨rfl, List.forall_mem_singleton.mpr rfl⟩) rfl rest

/-- The canonical form of a name has its placeholder once for each input. -/
theorem count_words_canonical (text : Text) :
    (words (canonical text)).count placeholder = (inputs text).length := by
  have general (ps : List Piece) (lead : Text)
      (apart : (lead.map Piece.plain ++ ps).IsChain Piece.Apart) :
      (words (lower lead ++ ps.flatMap Piece.canonical)).count placeholder = ps.countP Piece.isInput := by
    have absent (lead : Text) (apart : (lead.map Piece.plain).IsChain Piece.Apart) :
        placeholder ∉ words (lower lead) := by
      rw [words_lower, List.mem_map]
      rintro ⟨word, listed, same⟩
      obtain rfl := lower_eq_placeholder same
      obtain ⟨before, after, rfl⟩ := infix_of_mem_pieces (List.mem_filter.mp listed).1
      simp [placeholder, List.isChain_append, Piece.Apart] at apart
    induction ps generalizing lead with
    | nil =>
        rw [List.append_nil] at apart
        rw [List.flatMap_nil, List.append_nil]
        exact List.count_eq_zero.mpr (absent lead apart)
    | cons piece rest ih =>
        cases piece with
        | input token =>
            have here := absent lead (List.isChain_append.mp apart).1
            have behind := ih [] (List.isChain_append.mp apart).2.1.tail
            have split : words (lower lead ++ (Piece.input token :: rest).flatMap Piece.canonical) =
                words (lower lead) ++ placeholder :: words (rest.flatMap Piece.canonical) := by
              exact (words_append (by decide) _ _).trans (congrArg _ (words_placeholder _))
            rw [split, List.count_append, List.count_cons_self, List.count_eq_zero.mpr here,
              List.countP_cons_of_pos rfl, Nat.zero_add]
            exact congrArg (· + 1) behind
        | plain c =>
            have joined : lower lead ++ (Piece.plain c :: rest).flatMap Piece.canonical =
                lower (lead ++ [c]) ++ rest.flatMap Piece.canonical := by
              simp [lower, Piece.canonical]
            rw [joined, List.countP_cons_of_neg Bool.false_ne_true]
            exact ih (lead ++ [c]) (by simpa using apart)
  rw [canonical, words_collapse, length_inputs]
  exact general (pieces text) [] (isChain_pieces text)

theorem length_inputs_of_canonical {call declaration : Text} (same : canonical declaration = canonical call) :
    (inputs call).length = (inputs declaration).length := by
  rw [← count_words_canonical call, ← same, count_words_canonical]

end Counting

section Naming

theorem dropWhile_append_of_foreign {p : Char → Bool} {front back : Text} (dropped : ∀ c ∈ front, p c = true)
    (foreign : ∀ c ∈ back, p c = false) : (front ++ back).dropWhile p = back := by
  rw [List.dropWhile_append_of_pos dropped]
  cases back with
  | nil => rfl
  | cons c rest => exact List.dropWhile_cons_of_neg (by simp [foreign c (.head _)])

theorem parameterName_braced {name : Text} (plain : ∀ c ∈ name, Reference.isBrace c = false)
    (opening closing : Text) (opens : ∀ c ∈ opening, c = '{') (closes : ∀ c ∈ closing, c = '}') :
    parameterName (opening ++ (name ++ closing)) = trim name := by
  have apart : ∀ c ∈ name, c ≠ '{' ∧ c ≠ '}' := fun c listed => by
    simpa [Reference.isBrace] using plain c listed
  have opened : (opening ++ (name ++ closing)).dropWhile (· = '{') = name ++ closing := by
    refine dropWhile_append_of_foreign (by simpa using opens) fun c listed => ?_
    rcases List.mem_append.mp listed with inside | behind
    · simpa using (apart c inside).1
    · simp [closes c behind]
  have closed : (closing.reverse ++ name.reverse).dropWhile (· = '}') = name.reverse :=
    dropWhile_append_of_foreign (by simpa using closes) fun c listed => by
      simpa using (apart c (List.mem_reverse.mp listed)).2
  rw [parameterName, opened, List.reverse_append, closed, List.reverse_reverse]

/-- A parameter that is written as a reference is known by the name in it. -/
theorem parameterName_render {reference : Reference}
    (plain : ∀ c ∈ reference.name, Reference.isBrace c = false) :
    parameterName reference.render = trim reference.name := by
  rw [Reference.render]
  split
  · exact parameterName_braced plain ['{', '{'] ['}', '}'] (by simp) (by simp)
  · exact parameterName_braced plain ['{'] ['}'] (by simp) (by simp)

end Naming

end CallName

/-- Every input of a call is bound to the parameter of a declaration that stands in its place. -/
structure BindsAll (call declaration : Text) : Prop where
  written : (CallName.pieces call).flatMap CallName.Piece.written = call
  sameNumber : (CallName.inputs call).length = (CallName.inputs declaration).length
  names : (bindParams call declaration).map (·.name) =
    (CallName.inputs declaration).map CallName.parameterName
  inputs : (bindParams call declaration).map (·.input) = CallName.inputs call
  named : ∀ (index : Nat) (reference : Reference),
    (CallName.inputs declaration)[index]? = some reference.render →
    (∀ c ∈ reference.name, Reference.isBrace c = false) →
    ((bindParams call declaration)[index]?).map (·.name) = some (Text.trim reference.name)

theorem bindsAll_of_canonical {call declaration : Text}
    (same : CallName.canonical declaration = CallName.canonical call) : BindsAll call declaration := by
  have number := CallName.length_inputs_of_canonical same
  have paired {α : Type} (view : ParamBinding → α) : (bindParams call declaration).map view =
      ((CallName.inputs declaration).zip (CallName.inputs call)).map fun pair =>
        view ⟨CallName.parameterName pair.1, pair.2⟩ := by
    rw [bindParams, List.map_zipWith, List.map_zip_eq_zipWith]
    rfl
  have names : (bindParams call declaration).map (·.name) =
      (CallName.inputs declaration).map CallName.parameterName := by
    calc (bindParams call declaration).map (·.name)
      _ = (((CallName.inputs declaration).zip (CallName.inputs call)).map Prod.fst).map
          CallName.parameterName := by rw [paired, List.map_map]; rfl
      _ = (CallName.inputs declaration).map CallName.parameterName := by
          rw [List.map_fst_zip (Nat.le_of_eq number.symm)]
  refine ⟨CallName.written_pieces call, number, names, ?_, fun index reference found plain => ?_⟩
  · calc (bindParams call declaration).map (·.input)
      _ = ((CallName.inputs declaration).zip (CallName.inputs call)).map Prod.snd := paired _
      _ = CallName.inputs call := List.map_snd_zip (Nat.le_of_eq number)
  · rw [← List.getElem?_map, names, List.getElem?_map, found, Option.map_some,
      CallName.parameterName_render plain]

namespace Tree

variable {tree : Tree} {path : List Frame} {declaration : NodeId}

theorem canonical_of_findDeclaration {call : Text} {own : List NodeId}
    (found : tree.findDeclaration call own path = some declaration) :
    CallName.canonical (tree.node declaration).step.text = CallName.canonical call := by
  have declares := List.find?_some found
  simp only [Tree.declares, Bool.and_eq_true, beq_iff_eq] at declares
  exact declares.2

/-- Whether a call stands in the tree or not, it binds every parameter of the declaration it refers to. -/
theorem bindsAll_of_resolve :
    (∀ id, tree.resolve id path = .ok declaration →
      BindsAll (tree.node id).step.callText (tree.node declaration).step.text) ∧
    ∀ call, tree.resolveText call path = .ok declaration →
      BindsAll call (tree.node declaration).step.text := by
  constructor
  · intro id resolved
    rw [resolve] at resolved
    split at resolved
    · next found =>
      cases resolved
      exact bindsAll_of_canonical (canonical_of_findDeclaration found)
    · cases resolved
  · intro call resolved
    rw [resolveText] at resolved
    split at resolved
    · next found =>
      cases resolved
      exact bindsAll_of_canonical (canonical_of_findDeclaration found)
    · cases resolved

/-- A name with an opening pair of braces that stays open. -/
def parcel : Tree :=
  .grown "PUT  [1st 'tab'] \x7b\x7b Y\n\n* Put \x7b\x7b what \x7d\x7d \x7b\x7b y\n    A -"

theorem bindsAll_of_resolve_parcel :
    parcel.resolve 1 [] = .ok 2 ∧ parcel.resolveText "put 'x y'\x7b\x7b y".toList [⟨1, none⟩] = .ok 2 ∧
      (CallName.inputs (parcel.node 2).step.text).map CallName.parameterName = ["what".toList] ∧
      BindsAll (parcel.node 1).step.callText (parcel.node 2).step.text ∧
      BindsAll "put 'x y'\x7b\x7b y".toList (parcel.node 2).step.text := by
  have placed : parcel.resolve 1 [] = .ok 2 := by decide +kernel
  have loose : parcel.resolveText "put 'x y'\x7b\x7b y".toList [⟨1, none⟩] = .ok 2 := by decide +kernel
  exact ⟨placed, loose, by decide +kernel, bindsAll_of_resolve.1 1 placed, bindsAll_of_resolve.2 _ loose⟩

end Tree

end TestTree
