import TestTree.Branch.Interchange
import TestTree.Proofs.Json.RoundTrip

/-!
Pairs of a writer and a reader. A pair carries a value if the reader makes of the written JSON what it
should; pairs for the parts of a list, an option or a record give one for the whole.
-/
namespace TestTree.Json

/-- The reader makes `result` of what the writer writes for `value`. -/
structure Carries {α : Type} (write : α → Json) (read : Json → Option α) (value result : α) : Prop where
  written : Written (write value)
  reads : read (write value) = some result

section Parts

variable {α : Type} {write : α → Json} {read : Json → Option α}

theorem Carries.parses {value result : α} (carries : Carries write read value result) :
    (parse? (write value).render).bind read = some result := by
  rw [carries.written.parse?_render, Option.bind_some, carries.reads]

theorem carries_text (text : Text) : Carries ofText text? text text :=
  ⟨.text text, JsonString.decode_encode text⟩

theorem carries_bool (value : Bool) : Carries bool bool? value value := ⟨.bool value, rfl⟩

theorem carries_nat {n : Nat} (small : n < 2 ^ 64) : Carries ofNat nat? n n :=
  ⟨.int n, nat?_ofNat small⟩

theorem carries_int64 {n : Int} (small : -2 ^ 63 ≤ n ∧ n < 2 ^ 63) : Carries ofInt int64? n n :=
  ⟨.int n, int64?_ofInt small⟩

theorem carries_option (strict : read null = none) {value : Option α}
    (each : ∀ inner ∈ value, Carries write read inner inner) :
    Carries (ofOption write) (orNull read) value value := by
  cases value with
  | none => exact ⟨.null, rfl⟩
  | some inner =>
      obtain ⟨written, reads⟩ := each inner rfl
      refine ⟨written, ?_⟩
      have solid : write inner ≠ null := fun isNull => by
        rw [isNull, strict] at reads
        cases reads
      rw [ofOption, orNull, reads]
      · rfl
      · exact solid

theorem carries_list {values : List α} {clear : α → α}
    (each : ∀ value ∈ values, Carries write read value (clear value)) :
    Carries (ofList write) (list? read) values (values.map clear) := by
  refine ⟨.array fun element listed => ?_, ?_⟩
  · obtain ⟨value, isValue, rfl⟩ := List.mem_map.mp listed
    exact (each value isValue).written
  · rw [ofList, list?]
    induction values with
    | nil => rfl
    | cons value rest ih =>
        have others := ih fun value listed => each value (.tail _ listed)
        simp [(each value (.head _)).reads, others]

theorem carries_list_same {values : List α} (each : ∀ value ∈ values, Carries write read value value) :
    Carries (ofList write) (list? read) values values := by
  have carries : Carries (ofList write) (list? read) values (values.map id) := carries_list each
  rwa [List.map_id] at carries

end Parts

section Records

/-- Names that are written as they are, and each of them once. -/
def Plain (names : List Text) : Prop :=
  names.Nodup ∧ ∀ name ∈ names, JsonString.encode name = name

instance (names : List Text) : Decidable (Plain names) := inferInstanceAs (Decidable (_ ∧ _))

variable {names : List Text} {fields : List (String × Json)}

theorem knownMembers_ofFields (known : ∀ field ∈ fields, field.1.toList ∈ names)
    (plain : Plain (fields.map fun field => field.1.toList)) :
    knownMembers names (fields.map fun (name, value) => (name.toList, value)) =
      some (fields.map fun (name, value) => (name.toList, value)) := by
  induction fields with
  | nil => rfl
  | cons field rest ih =>
      obtain ⟨name, value⟩ := field
      obtain ⟨distinct, encoded⟩ := plain
      rw [List.map_cons, List.nodup_cons] at distinct
      have key : JsonString.decode name.toList = some name.toList := by
        have same := encoded name.toList (.head _)
        rw [← same, JsonString.decode_encode, same]
      have others := ih (fun field listed => known field (.tail _ listed))
        ⟨distinct.2, fun key listed => encoded key (.tail _ listed)⟩
      have once : ((rest.map fun (name, value) => (name.toList, value)).any
          fun other => other.1 == name.toList) = false := by
        refine List.any_eq_false.mpr fun other listed same => ?_
        obtain ⟨second, isOther, rfl⟩ := List.mem_map.mp listed
        exact distinct.1 (List.mem_map.mpr ⟨second, isOther, beq_iff_eq.mp same⟩)
      rw [List.map_cons, knownMembers, key, others]
      simpa [once] using known _ (.head _)

theorem get?_of_mem {given : List (Text × Json)} {isList : Bool} {field : Text × Json}
    (distinct : (given.map (·.1)).Nodup) (isField : field ∈ given) :
    Record.get? ⟨given, isList⟩ field.1 = some field.2 := by
  induction given with
  | nil => cases isField
  | cons first rest ih =>
      rw [List.map_cons, List.nodup_cons] at distinct
      rcases List.mem_cons.mp isField with rfl | later
      · simp [Record.get?]
      · have other : (first.1 == field.1) = false :=
          beq_eq_false_iff_ne.mpr fun same =>
            distinct.1 (List.mem_map.mpr ⟨field, later, same.symm⟩)
        simpa [Record.get?, other] using ih distinct.2 later

/-- The record that is read gives every field that was written. -/
theorem exists_record {value : Json} (plain : Plain names) (shape : value = ofFields fields)
    (listed : (fields.map fun field => field.1.toList) = names) :
    ∃ record, record? names value = some record ∧
      ∀ field ∈ fields, record.get? field.1.toList = some field.2 := by
  obtain rfl := listed
  have known : ∀ field ∈ fields, field.1.toList ∈ fields.map fun field => field.1.toList :=
    fun field isField => List.mem_map.mpr ⟨field, isField, rfl⟩
  have distinct : ((fields.map fun (name, value) => (name.toList, value)).map (·.1)).Nodup := by
    rw [List.map_map]
    exact plain.1
  refine ⟨⟨fields.map fun (name, value) => (name.toList, value), false⟩, ?_, fun field isField => ?_⟩
  · simp only [shape, record?, ofFields, knownMembers_ofFields known plain, Option.map_some]
  · exact get?_of_mem distinct (List.mem_map.mpr ⟨field, isField, rfl⟩)

variable {α β : Type} {record : Record} {name : Text} {read : Json → Option α} {value : Json} {x : α}
  {rest : α → Option β} {result : Option β}

theorem bind_of_eq_some {first : Option α} (isFirst : first = some x) (after : rest x = result) :
    (first >>= rest) = result := by
  rw [isFirst]
  exact after

theorem required_bind (given : record.get? name = some value) (reads : read value = some x)
    (after : rest x = result) : (record.required name read >>= rest) = result :=
  bind_of_eq_some (by rw [Record.required, given, Option.bind_some, reads]) after

theorem optional_bind {rest : Option α → Option β} {x : Option α}
    (given : record.get? name = some value) (reads : orNull read value = some x)
    (after : rest x = result) : (record.optional name read >>= rest) = result :=
  bind_of_eq_some (by simp only [Record.optional, given, reads]) after

theorem withDefault_bind {absent : α} (given : record.get? name = some value)
    (reads : read value = some x) (after : rest x = result) :
    (record.withDefault name read absent >>= rest) = result :=
  bind_of_eq_some (by simp only [Record.withDefault, given, reads]) after

theorem written_ofFields (plain : Plain names)
    (listed : (fields.map fun field => field.1.toList) = names)
    (each : ∀ field ∈ fields, Written field.2) : Written (ofFields fields) := by
  obtain rfl := listed
  refine .object (fun member isMember => ?_) fun member isMember => ?_
  · obtain ⟨field, isField, rfl⟩ := List.mem_map.mp isMember
    exact ⟨_, (plain.2 _ (List.mem_map.mpr ⟨field, isField, rfl⟩)).symm⟩
  · obtain ⟨field, isField, rfl⟩ := List.mem_map.mp isMember
    exact each field isField

end Records

end TestTree.Json
