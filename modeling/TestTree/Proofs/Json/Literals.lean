import Mathlib.Algebra.Group.Int.Defs
import Mathlib.Algebra.Group.Nat.Defs
import Mathlib.Data.List.Basic
import TestTree.Json.Parser
import TestTree.Json.Record

namespace TestTree

namespace JsonString

/-- A character is written as an escape of one letter, as its code, or as it is. -/
theorem encodeChar_cases (c : Char) :
    (∃ letter, letter ≠ 'u' ∧ unescape letter = some c ∧ encodeChar c = ['\\', letter]) ∨
      (∃ high low, c.toNat < 0x20 ∧ hexCode '0' '0' high low = some c.toNat ∧
        encodeChar c = ['\\', 'u', '0', '0', high, low]) ∨
      (c ≠ '"' ∧ c ≠ '\\' ∧ ¬ c.toNat < 0x20 ∧ encodeChar c = [c]) := by
  have letter {letter : Char} (code : Nat) (same : c.toNat = code)
      (plain : letter ≠ 'u') (stands : unescape letter = some (Char.ofNat code)) :
      letter ≠ 'u' ∧ unescape letter = some c ∧ ['\\', letter] = ['\\', letter] := by
    rw [← same, Char.ofNat_toNat] at stands
    exact ⟨plain, stands, rfl⟩
  rw [encodeChar]
  split
  · next same => exact .inl ⟨'"', letter _ same (by decide) (by decide)⟩
  · next same => exact .inl ⟨'\\', letter _ same (by decide) (by decide)⟩
  · next same => exact .inl ⟨'b', letter _ same (by decide) (by decide)⟩
  · next same => exact .inl ⟨'t', letter _ same (by decide) (by decide)⟩
  · next same => exact .inl ⟨'n', letter _ same (by decide) (by decide)⟩
  · next same => exact .inl ⟨'f', letter _ same (by decide) (by decide)⟩
  · next same => exact .inl ⟨'r', letter _ same (by decide) (by decide)⟩
  · next quote backslash _ _ _ _ _ =>
      split
      · next control =>
          have codes : ∀ code < 0x20,
              hexCode '0' '0' (hexDigit (code / 16)) (hexDigit (code % 16)) = some code := by decide
          exact .inr (.inl ⟨_, _, control, codes _ control, rfl⟩)
      · next printable =>
          refine .inr (.inr ⟨?_, ?_, printable, rfl⟩)
          · rintro rfl
            exact quote rfl
          · rintro rfl
            exact backslash rfl

theorem decode_encodeChar (c : Char) (rest : Text) :
    decode (encodeChar c ++ rest) = (decode rest).map (c :: ·) := by
  rcases encodeChar_cases c with ⟨letter, plain, stands, written⟩ |
    ⟨high, low, control, stands, written⟩ | ⟨-, backslash, -, written⟩
  · rw [written, List.cons_append, List.cons_append, List.nil_append, decode]
    · rw [stands]
    · rintro _ _ _ _ _ rfl
      exact absurd rfl plain
  · simp only [written, List.cons_append, List.nil_append, decode, stands]
    have low : isLowSurrogate c.toNat = false := by
      simp only [isLowSurrogate, Bool.and_eq_false_iff, decide_eq_false_iff_not]
      omega
    have high : isHighSurrogate c.toNat = false := by
      simp only [isHighSurrogate, Bool.and_eq_false_iff, decide_eq_false_iff_not]
      omega
    simp [low, high, Char.ofNat_toNat]
  · rw [written, List.singleton_append, decode]
    all_goals simp [backslash]

theorem decode_encode (text : Text) : decode (encode text) = some text := by
  induction text with
  | nil => rfl
  | cons c rest ih =>
      rw [encode, List.flatMap_cons, decode_encodeChar]
      exact congrArg (Option.map (c :: ·)) ih

theorem take_encodeChar (c : Char) (rest : Text) :
    take (encodeChar c ++ rest) =
      (take rest).map fun (written, behind) => (encodeChar c ++ written, behind) := by
  rcases encodeChar_cases c with ⟨letter, plain, stands, written⟩ |
    ⟨high, low, control, stands, written⟩ | ⟨quote, backslash, printable, written⟩
  · rw [written, List.cons_append, List.cons_append, List.nil_append, take]
    · simp [stands]
    · rintro _ _ _ _ _ rfl
      exact absurd rfl plain
  · simp [written, take, stands]
  · rw [written, List.singleton_append, take]
    all_goals simp [quote, backslash, printable]

theorem take_encode (text rest : Text) :
    take (encode text ++ '"' :: rest) = some (encode text, rest) := by
  induction text with
  | nil => simp [encode, take]
  | cons c text ih =>
      have split : encode (c :: text) = encodeChar c ++ encode text := rfl
      rw [split, List.append_assoc, take_encodeChar, ih]
      rfl

end JsonString

namespace Json

/-- What may stand behind a value: the end, a comma, or the line of a closing bracket. -/
def Ends (rest : Text) : Prop := ∀ c ∈ rest.head?, c = ',' ∨ c = '\n'

theorem Ends.cases {rest : Text} (ends : Ends rest) :
    rest = [] ∨ ∃ c behind, rest = c :: behind ∧ c.isDigit = false ∧ c ≠ '.' ∧ c ≠ 'e' ∧ c ≠ 'E' := by
  cases rest with
  | nil => exact .inl rfl
  | cons c behind =>
      refine .inr ⟨c, behind, rfl, ?_⟩
      rcases ends c rfl with rfl | rfl <;> decide

theorem takeDigits_append {digits rest : Text} (some : digits ≠ [])
    (all : ∀ c ∈ digits, c.isDigit = true) (ends : Ends rest) :
    takeDigits (digits ++ rest) = .some (digits, rest) := by
  have taken : (digits ++ rest).takeWhile Char.isDigit = digits := by
    rw [List.takeWhile_append_of_pos all]
    rcases ends.cases with rfl | ⟨c, behind, rfl, other, -⟩
    · simp
    · simp [other]
  have left : (digits ++ rest).dropWhile Char.isDigit = rest := by
    rw [List.dropWhile_append_of_pos all]
    rcases ends.cases with rfl | ⟨c, behind, rfl, other, -⟩
    · rfl
    · simp [other]
  rw [takeDigits, taken, left, if_neg (by simpa using some)]

theorem isDigit_of_mem {n : Nat} {c : Char} (listed : c ∈ Nat.toDigits 10 n) : c.isDigit = true :=
  Nat.isDigit_of_mem_toDigits (by decide) (Nat.le_refl _) listed

theorem head?_toDigits (n : Nat) (positive : 0 < n) : (Nat.toDigits 10 n).head? ≠ some '0' := by
  induction n using Nat.strongRecOn with
  | ind n ih =>
      by_cases small : n < 10
      · have digits : ∀ digit < 10, 0 < digit → [digit.digitChar].head? ≠ some '0' := by decide
        rw [Nat.toDigits_of_lt_base small]
        exact digits n small positive
      · have large : 10 ≤ n := Nat.le_of_not_lt small
        rw [Nat.toDigits_of_base_le (by decide) large,
          List.head?_append_of_ne_nil _ Nat.toDigits_ne_nil]
        exact ih (n / 10) (Nat.div_lt_self positive (by decide)) (Nat.div_pos large (by decide))

theorem takeWhole_append {n : Nat} {rest : Text} (ends : Ends rest) :
    takeWhole (Nat.toDigits 10 n ++ rest) = some (Nat.toDigits 10 n, rest) := by
  rw [takeWhole, takeDigits_append Nat.toDigits_ne_nil (fun _ => isDigit_of_mem) ends]
  split
  · next second more behind same =>
      have digits := congrArg Prod.fst (Option.some.inj same)
      cases n with
      | zero =>
          rw [Nat.toDigits_zero] at digits
          cases digits
      | succ n => exact absurd (congrArg List.head? digits) (head?_toDigits _ n.succ_pos)
  · rfl

theorem takeFraction_of_ends {rest : Text} (ends : Ends rest) :
    takeFraction rest = some ([], rest) := by
  rcases ends.cases with rfl | ⟨c, behind, rfl, -, point, -⟩
  · rfl
  · simp [takeFraction, point]

theorem takeExponent_of_ends {rest : Text} (ends : Ends rest) :
    takeExponent rest = some ([], rest) := by
  rcases ends.cases with rfl | ⟨c, behind, rfl, -, -, small, large⟩
  · rfl
  · simp [takeExponent, small, large]

theorem toList_toString (n : Int) :
    (toString n).toList =
      if 0 ≤ n then Nat.toDigits 10 n.toNat else '-' :: Nat.toDigits 10 (-n).toNat := by
  rw [Int.toString_eq_repr, Int.repr_eq_if]
  split
  · exact Nat.toList_repr
  · rw [String.toList_append, Nat.toList_repr]
    rfl

theorem toDigits_ne_minus {n : Nat} {rest digits : Text} :
    Nat.toDigits 10 n ++ rest ≠ '-' :: digits := by
  intro same
  cases written : Nat.toDigits 10 n with
  | nil => exact Nat.toDigits_ne_nil written
  | cons first others =>
      rw [written] at same
      obtain rfl : first = '-' := (List.cons.inj same).1
      have digit : ('-').isDigit = true := isDigit_of_mem (written ▸ List.mem_cons_self)
      cases digit

theorem takeNumber_toString (n : Int) {rest : Text} (ends : Ends rest) :
    takeNumber ((toString n).toList ++ rest) = some ((toString n).toList, rest) := by
  rw [toList_toString]
  split
  · rw [takeNumber]
    · simp [takeWhole_append ends, takeFraction_of_ends ends, takeExponent_of_ends ends]
    · exact fun _ same => toDigits_ne_minus same
  · rw [List.cons_append, takeNumber]
    simp [takeWhole_append ends, takeFraction_of_ends ends, takeExponent_of_ends ends]

theorem digitsValue_toDigits (n : Nat) : digitsValue (Nat.toDigits 10 n) = n :=
  Nat.ofDigitChars_toDigits (by decide) (Nat.le_refl _)

theorem all_isDigit_toDigits (n : Nat) : (Nat.toDigits 10 n).all Char.isDigit = true :=
  List.all_eq_true.mpr fun _ => isDigit_of_mem

theorem int?_ofInt (n : Int) : int? (ofInt n) = some n := by
  rw [ofInt, toList_toString]
  split
  · next nonneg =>
      rw [int?]
      · rw [all_isDigit_toDigits, if_pos rfl, digitsValue_toDigits, Int.toNat_of_nonneg nonneg]
      · exact fun _ same => toDigits_ne_minus ((List.append_nil _).trans same)
  · next negative =>
      have value : -((-n).toNat : Int) = n := by omega
      have nonzero : (-n).toNat ≠ 0 := by omega
      rw [int?, all_isDigit_toDigits, digitsValue_toDigits, if_pos (by simpa using nonzero), value]

theorem ofNat_eq_ofInt (n : Nat) : ofNat n = ofInt n := rfl

theorem nat?_ofNat {n : Nat} (small : n < 2 ^ 64) : nat? (ofNat n) = some n := by
  have bounds : 0 ≤ (n : Int) ∧ (n : Int) < 2 ^ 64 := ⟨Int.natCast_nonneg n, by omega⟩
  rw [nat?, ofNat_eq_ofInt, int?_ofInt, Option.bind_some]
  exact if_pos bounds

theorem int64?_ofInt {n : Int} (small : -2 ^ 63 ≤ n ∧ n < 2 ^ 63) : int64? (ofInt n) = some n := by
  rw [int64?, int?_ofInt, Option.bind_some]
  exact if_pos small

end Json

end TestTree
