import TestTree.Json.Printer
import TestTree.Proofs.Json.Literals

namespace TestTree.Json

/-- Values whose strings and numbers are the ones that are written for texts and integers. -/
inductive Written : Json → Prop
  | null : Written null
  | bool (value : Bool) : Written (bool value)
  | int (n : Int) : Written (ofInt n)
  | text (text : Text) : Written (ofText text)
  | array {elements : List Json} (each : ∀ element ∈ elements, Written element) :
      Written (array elements)
  | object {members : List (Text × Json)}
      (keys : ∀ member ∈ members, ∃ name, member.1 = JsonString.encode name)
      (each : ∀ member ∈ members, Written member.2) : Written (object members)

section Spaces

variable {text rest : Text} {c : Char}

theorem skipSpace_cons (visible : isSpace c = false) : skipSpace (c :: rest) = c :: rest := by
  rw [skipSpace, List.dropWhile_cons_of_neg (by simp [visible])]

theorem skipSpace_newline (depth : Nat) (rest : Text) :
    skipSpace (newline depth ++ rest) = skipSpace rest := by
  have blank : ∀ c ∈ newline depth, isSpace c = true := by
    intro c listed
    rcases List.mem_cons.mp listed with rfl | space
    · rfl
    · obtain rfl := List.eq_of_mem_replicate space
      rfl
  rw [skipSpace, skipSpace, List.dropWhile_append_of_pos blank]

theorem take_congr {other : Text} (same : skipSpace text = skipSpace other) (bound : Nat) :
    take bound text = take bound other := by
  cases bound with
  | zero => rfl
  | succ bound => rw [take, take, same]

theorem ends_renderElements (depth : Nat) (elements : List Json) (rest : Text) :
    Ends (renderElements depth elements ++ rest) := by
  cases elements with
  | nil => simp [renderElements, newline, Ends]
  | cons => simp [renderElements, Ends]

theorem ends_renderMembers (depth : Nat) (members : List (Text × Json)) (rest : Text) :
    Ends (renderMembers depth members ++ rest) := by
  cases members with
  | nil => simp [renderMembers, newline, Ends]
  | cons => simp [renderMembers, Ends]

end Spaces

section Scalars

theorem head_toString (n : Int) :
    ∃ c behind, (toString n).toList = c :: behind ∧ (c = '-' ∨ c.isDigit = true) := by
  rw [toList_toString]
  split
  · cases digits : Nat.toDigits 10 n.toNat with
    | nil => exact absurd digits Nat.toDigits_ne_nil
    | cons first others =>
        exact ⟨first, others, rfl, .inr (isDigit_of_mem (digits ▸ List.mem_cons_self))⟩
  · exact ⟨'-', _, rfl, .inl rfl⟩

theorem apart_of_numeral {c : Char} (numeral : c = '-' ∨ c.isDigit = true) :
    isSpace c = false ∧ c ∉ ['"', '[', ']', '{', 'n', 't', 'f'] := by
  have apart {other : Char} (sign : other ≠ '-') (letter : other.isDigit = false) : c ≠ other := by
    rintro rfl
    rcases numeral with isSign | digit
    · exact sign isSign
    · rw [letter] at digit
      cases digit
  refine ⟨?_, ?_⟩
  · have space : c ≠ ' ' := apart (by decide) (by decide)
    have feed : c ≠ '\n' := apart (by decide) (by decide)
    have tab : c ≠ '\t' := apart (by decide) (by decide)
    have back : c ≠ '\r' := apart (by decide) (by decide)
    simp [isSpace, space, feed, tab, back]
  · simp only [List.mem_cons, List.not_mem_nil, or_false, not_or]
    exact ⟨apart (by decide) (by decide), apart (by decide) (by decide),
      apart (by decide) (by decide), apart (by decide) (by decide), apart (by decide) (by decide),
      apart (by decide) (by decide), apart (by decide) (by decide)⟩

theorem take_null (bound : Nat) (rest : Text) :
    take (bound + 1) ('n' :: 'u' :: 'l' :: 'l' :: rest) = some (null, rest) := by
  rw [take, skipSpace_cons (by decide)]
  rfl

theorem take_true (bound : Nat) (rest : Text) :
    take (bound + 1) ('t' :: 'r' :: 'u' :: 'e' :: rest) = some (bool true, rest) := by
  rw [take, skipSpace_cons (by decide)]
  rfl

theorem take_false (bound : Nat) (rest : Text) :
    take (bound + 1) ('f' :: 'a' :: 'l' :: 's' :: 'e' :: rest) = some (bool false, rest) := by
  rw [take, skipSpace_cons (by decide)]
  rfl

theorem take_int (bound : Nat) (n : Int) {rest : Text} (ends : Ends rest) :
    take (bound + 1) ((toString n).toList ++ rest) = some (ofInt n, rest) := by
  obtain ⟨c, behind, written, numeral⟩ := head_toString n
  obtain ⟨visible, apart⟩ := apart_of_numeral numeral
  have number := takeNumber_toString n ends
  simp only [List.mem_cons, List.not_mem_nil, or_false, not_or] at apart
  obtain ⟨quote, bracket, -, brace, n', t, f⟩ := apart
  have wordless : takeWord (c :: (behind ++ rest)) = none := by
    simp [takeWord, words, Text.after?, Ne.symm n', Ne.symm t, Ne.symm f]
  rw [written, List.cons_append] at number ⊢
  rw [take, skipSpace_cons visible]
  split
  all_goals simp_all [ofInt]

theorem take_text (bound : Nat) (text rest : Text) :
    take (bound + 1) (quoted (JsonString.encode text) ++ rest) = some (ofText text, rest) := by
  have shape : quoted (JsonString.encode text) ++ rest =
      '"' :: (JsonString.encode text ++ '"' :: rest) := by simp [quoted]
  rw [shape, take, skipSpace_cons (by decide)]
  simp [JsonString.take_encode, ofText]

end Scalars

section Nesting

variable {bound : Nat} {text behind more rest : Text} {element : Json} {elements : List Json}
  {members : List (Text × Json)}

theorem takeElements_last (taken : take bound text = some (element, behind))
    (closing : skipSpace behind = ']' :: rest) :
    takeElements (bound + 1) text = some ([element], rest) := by
  simp [takeElements, taken, closing]

theorem takeElements_cons (taken : take bound text = some (element, behind))
    (comma : skipSpace behind = ',' :: more)
    (others : takeElements bound more = some (elements, rest)) :
    takeElements (bound + 1) text = some (element :: elements, rest) := by
  simp [takeElements, taken, comma, others]

theorem takeMembers_last {name : Text}
    (start : skipSpace text = quoted (JsonString.encode name) ++ ':' :: behind)
    (taken : take bound behind = some (element, more)) (closing : skipSpace more = '}' :: rest) :
    takeMembers (bound + 1) text = some ([(JsonString.encode name, element)], rest) := by
  have key : JsonString.take (JsonString.encode name ++ '"' :: ':' :: behind) =
      some (JsonString.encode name, ':' :: behind) := JsonString.take_encode _ _
  have colon : skipSpace (':' :: behind) = ':' :: behind := skipSpace_cons (by decide)
  simp [takeMembers, start, quoted, key, colon, taken, closing]

theorem takeMembers_cons {name last : Text}
    (start : skipSpace text = quoted (JsonString.encode name) ++ ':' :: behind)
    (taken : take bound behind = some (element, more)) (comma : skipSpace more = ',' :: rest)
    (others : takeMembers bound rest = some (members, last)) :
    takeMembers (bound + 1) text = some ((JsonString.encode name, element) :: members, last) := by
  have key : JsonString.take (JsonString.encode name ++ '"' :: ':' :: behind) =
      some (JsonString.encode name, ':' :: behind) := JsonString.take_encode _ _
  have colon : skipSpace (':' :: behind) = ':' :: behind := skipSpace_cons (by decide)
  simp [takeMembers, start, quoted, key, colon, taken, comma, others]

/-- The reader takes the value back, wherever it stands. -/
def Reads (value : Json) : Prop :=
  ∀ depth bound rest, (renderAt depth value).length ≤ bound → Ends rest →
    take bound (renderAt depth value ++ rest) = some (value, rest)

theorem Reads.behind_newline (reads : Reads element) {depth level : Nat} (ends : Ends rest)
    (enough : (renderAt depth element).length ≤ bound) :
    take bound (newline level ++ (renderAt depth element ++ rest)) = some (element, rest) := by
  rw [take_congr (skipSpace_newline level _)]
  exact reads depth bound rest enough ends

theorem Reads.behind_space (reads : Reads element) {depth : Nat} (ends : Ends rest)
    (enough : (renderAt depth element).length ≤ bound) :
    take bound (' ' :: (renderAt depth element ++ rest)) = some (element, rest) := by
  have same : skipSpace (' ' :: (renderAt depth element ++ rest)) =
      skipSpace (renderAt depth element ++ rest) := rfl
  rw [take_congr same]
  exact reads depth bound rest enough ends

theorem takeElements_render (depth : Nat) (elements : List Json) :
    ∀ element, Reads element → (∀ other ∈ elements, Reads other) → ∀ bound rest,
      (newline (depth + 1) ++ (renderAt (depth + 1) element ++ renderElements depth elements)).length ≤
        bound →
      takeElements bound (newline (depth + 1) ++
          (renderAt (depth + 1) element ++ (renderElements depth elements ++ rest))) =
        some (element :: elements, rest) := by
  induction elements with
  | nil =>
      intro element first _ bound rest enough
      simp only [List.length_append, newline, List.length_cons] at enough
      obtain ⟨bound, rfl⟩ := Nat.exists_eq_add_one_of_ne_zero (show bound ≠ 0 by omega)
      refine takeElements_last
        (first.behind_newline (ends_renderElements depth [] rest) (by omega)) ?_
      rw [renderElements, List.append_assoc, skipSpace_newline]
      exact skipSpace_cons (by decide)
  | cons next others ih =>
      intro element first reads bound rest enough
      simp only [List.length_append, newline, List.length_cons, renderElements] at enough
      obtain ⟨bound, rfl⟩ := Nat.exists_eq_add_one_of_ne_zero (show bound ≠ 0 by omega)
      refine takeElements_cons
        (first.behind_newline (ends_renderElements depth (next :: others) rest) (by omega)) ?_
        (ih next (reads next (.head _)) (fun other listed => reads other (.tail _ listed)) bound rest ?_)
      · simp only [renderElements, List.cons_append, List.append_assoc]
        exact skipSpace_cons (by decide)
      · simp only [List.length_append, newline, List.length_cons]
        omega

/-- A member as it is written, up to its value. -/
theorem skipSpace_member (depth : Nat) (name behind : Text) :
    skipSpace (newline depth ++ (quoted (JsonString.encode name) ++ (": ".toList ++ behind))) =
      quoted (JsonString.encode name) ++ ':' :: ' ' :: behind := by
  rw [skipSpace_newline]
  exact skipSpace_cons (by decide)

theorem takeMembers_render (depth : Nat) (members : List (Text × Json)) :
    ∀ name element, Reads element → (∀ other ∈ members, Reads other.2) →
      (∀ other ∈ members, ∃ name, other.1 = JsonString.encode name) → ∀ bound rest,
      (newline (depth + 1) ++ (quoted (JsonString.encode name) ++ (": ".toList ++
        (renderAt (depth + 1) element ++ renderMembers depth members)))).length ≤ bound →
      takeMembers bound (newline (depth + 1) ++ (quoted (JsonString.encode name) ++ (": ".toList ++
          (renderAt (depth + 1) element ++ (renderMembers depth members ++ rest))))) =
        some ((JsonString.encode name, element) :: members, rest) := by
  induction members with
  | nil =>
      intro name element first _ _ bound rest enough
      simp only [List.length_append, newline, List.length_cons] at enough
      obtain ⟨bound, rfl⟩ := Nat.exists_eq_add_one_of_ne_zero (show bound ≠ 0 by omega)
      refine takeMembers_last (skipSpace_member _ _ _)
        (first.behind_space (ends_renderMembers depth [] rest) (by omega)) ?_
      rw [renderMembers, List.append_assoc, skipSpace_newline]
      exact skipSpace_cons (by decide)
  | cons next others ih =>
      obtain ⟨key, value⟩ := next
      intro name element first reads keys bound rest enough
      obtain ⟨next, rfl⟩ := keys _ (.head _)
      simp only [List.length_append, newline, List.length_cons, renderMembers] at enough
      obtain ⟨bound, rfl⟩ := Nat.exists_eq_add_one_of_ne_zero (show bound ≠ 0 by omega)
      refine takeMembers_cons (skipSpace_member _ _ _)
        (first.behind_space (ends_renderMembers depth _ rest) (by omega)) ?_
        (ih next value (reads _ (.head _)) (fun other listed => reads other (.tail _ listed))
          (fun other listed => keys other (.tail _ listed)) bound rest ?_)
      · simp only [renderMembers, List.cons_append, List.append_assoc]
        exact skipSpace_cons (by decide)
      · simp only [List.length_append, newline, List.length_cons]
        omega

/-- The first character of a value: not a space, and not a closing bracket. -/
theorem head_renderAt {value : Json} (written : Written value) (depth : Nat) :
    ∃ c behind, renderAt depth value = c :: behind ∧ isSpace c = false ∧ c ≠ ']' := by
  cases written with
  | null => exact ⟨_, _, rfl, by decide⟩
  | bool value => cases value <;> exact ⟨_, _, rfl, by decide⟩
  | int n =>
      obtain ⟨c, behind, written, numeral⟩ := head_toString n
      obtain ⟨visible, apart⟩ := apart_of_numeral numeral
      exact ⟨c, behind, written, visible, fun closing => apart (by simp [closing])⟩
  | text text => exact ⟨_, _, rfl, by decide⟩
  | @array elements each => cases elements <;> exact ⟨_, _, rfl, by decide⟩
  | @object members keys each => cases members <;> exact ⟨_, _, rfl, by decide⟩

theorem take_bracket {c : Char} (start : skipSpace text = c :: behind) (more : c ≠ ']') :
    take (bound + 1) ('[' :: text) =
      (takeElements bound text).map fun (elements, rest) => (array elements, rest) := by
  rw [take, skipSpace_cons (by decide)]
  simp [start, more]

theorem take_brace {c : Char} (start : skipSpace text = c :: behind) (more : c ≠ '}') :
    take (bound + 1) ('{' :: text) =
      (takeMembers bound text).map fun (members, rest) => (object members, rest) := by
  rw [take, skipSpace_cons (by decide)]
  simp [start, more]

theorem take_array {depth : Nat} (first : Reads element) (reads : ∀ other ∈ elements, Reads other)
    (head : ∃ c behind, renderAt (depth + 1) element = c :: behind ∧ isSpace c = false ∧ c ≠ ']')
    (enough : (renderAt depth (array (element :: elements))).length ≤ bound + 1) :
    take (bound + 1) (renderAt depth (array (element :: elements)) ++ rest) =
      some (array (element :: elements), rest) := by
  obtain ⟨c, behind, shape, visible, more⟩ := head
  simp only [renderAt, List.append_assoc] at enough
  have start : skipSpace (newline (depth + 1) ++ (renderAt (depth + 1) element ++
      (renderElements depth elements ++ rest))) =
      c :: (behind ++ (renderElements depth elements ++ rest)) := by
    rw [skipSpace_newline, shape]
    exact skipSpace_cons visible
  simp only [renderAt, List.cons_append, List.append_assoc]
  rw [take_bracket start more, takeElements_render depth elements element first reads bound rest
    (Nat.le_of_succ_le_succ enough)]
  rfl

theorem take_object {depth : Nat} {name : Text} (first : Reads element)
    (reads : ∀ other ∈ members, Reads other.2)
    (keys : ∀ other ∈ members, ∃ name, other.1 = JsonString.encode name)
    (enough : (renderAt depth (object ((JsonString.encode name, element) :: members))).length ≤
      bound + 1) :
    take (bound + 1) (renderAt depth (object ((JsonString.encode name, element) :: members)) ++ rest) =
      some (object ((JsonString.encode name, element) :: members), rest) := by
  simp only [renderAt, List.append_assoc] at enough
  simp only [renderAt, List.cons_append, List.append_assoc]
  rw [take_brace (skipSpace_member _ _ _) (by decide), takeMembers_render depth members name element
    first reads keys bound rest (Nat.le_of_succ_le_succ enough)]
  rfl

theorem reads_of_succ {value : Json} (written : Written value)
    (reads : ∀ depth bound rest, (renderAt depth value).length ≤ bound + 1 → Ends rest →
      take (bound + 1) (renderAt depth value ++ rest) = some (value, rest)) : Reads value := by
  intro depth bound rest enough ends
  obtain ⟨c, behind, shape, -⟩ := head_renderAt written depth
  cases bound with
  | zero =>
      rw [shape] at enough
      cases enough
  | succ bound => exact reads depth bound rest enough ends

theorem Written.reads {value : Json} (written : Written value) : Reads value := by
  induction written with
  | null => exact reads_of_succ .null fun _ bound rest _ _ => take_null bound rest
  | bool value =>
      refine reads_of_succ (.bool value) fun _ bound rest _ _ => ?_
      cases value with
      | true => exact take_true bound rest
      | false => exact take_false bound rest
  | int n => exact reads_of_succ (.int n) fun _ bound _ _ ends => take_int bound n ends
  | text text => exact reads_of_succ (.text text) fun _ bound rest _ _ => take_text bound text rest
  | @array elements each ih =>
      refine reads_of_succ (.array each) fun depth bound rest enough _ => ?_
      cases elements with
      | nil => rfl
      | cons element others =>
          exact take_array (ih _ (.head _)) (fun other listed => ih other (.tail _ listed))
            (head_renderAt (each _ (.head _)) _) enough
  | @object members keys each ih =>
      refine reads_of_succ (.object keys each) fun depth bound rest enough _ => ?_
      cases members with
      | nil => rfl
      | cons member others =>
          obtain ⟨key, value⟩ := member
          obtain ⟨name, rfl⟩ := keys _ (.head _)
          exact take_object (ih _ (.head _)) (fun other listed => ih other (.tail _ listed))
            (fun other listed => keys other (.tail _ listed)) enough

/-- A value that is written alone is all that its text holds. -/
theorem Written.parse?_render {value : Json} (written : Written value) :
    parse? value.render = some value := by
  have taken := written.reads 0 (2 * (renderAt 0 value).length + 2) []
    (Nat.le_trans (Nat.le_mul_of_pos_left _ Nat.zero_lt_two) (Nat.le_add_right _ _))
    (fun c absent => by cases absent)
  rw [List.append_nil] at taken
  rw [parse?, render, taken]
  rfl

end Nesting

end TestTree.Json
