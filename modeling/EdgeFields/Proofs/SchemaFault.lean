/-
  EdgeFields/Proofs/SchemaFault.lean
  ==================================
  **When a checked schema still fails as a schema.**

  What a schema is gets decided twice. `Schema.check` walks the schema alone, when a field is
  bound; `Schema.validateAt` walks schema and document together, at every write. The second
  walk goes from a schema to those of its declared members and of its items, which the first
  one has checked before (`Schema.check_of_declared`, `Schema.check_of_items`). What it can
  still object to in a checked schema is null: the check takes null everywhere, validation takes
  it for the whole schema only.

  `Schema.Governs` says which schema a location of a document is tested against. A checked
  schema fails as a schema only at a location that null governs, and properties with such a
  location are never accepted (`Schema.validate_fault_of_checked`).
-/
import EdgeFields.Proofs.Dict
import EdgeFields.Proofs.Engine
import EdgeFields.Schema

namespace EdgeFields

/-! ### Checks in a row -/

namespace Result

variable {ε : Type} {x y : Except ε Unit} {e : ε}

theorem seq_eq_ok : (do x; y) = .ok () ↔ x = .ok () ∧ y = .ok () := by
  rw [bind_eq_ok]
  exact ⟨fun ⟨_, hx, hy⟩ => ⟨hx, hy⟩, fun ⟨hx, hy⟩ => ⟨(), hx, hy⟩⟩

theorem seq_eq_error : (do x; y) = .error e ↔ x = .error e ∨ (x = .ok () ∧ y = .error e) := by
  rw [bind_eq_error]
  exact or_congr Iff.rfl ⟨fun ⟨_, hx, hy⟩ => ⟨hx, hy⟩, fun ⟨hx, hy⟩ => ⟨(), hx, hy⟩⟩

end Result

namespace Schema

variable {schema nested : Json} {keywords ms : Members} {path name : String} {data : Json}
  {fault : SchemaFault}

/-! ### Checked schemas -/

theorem check_obj : check (.obj keywords) = .ok () ↔
    checkType keywords = .ok () ∧ checkProperties keywords = .ok () ∧
      checkItems keywords = .ok () := by
  rw [check, Result.seq_eq_ok, Result.seq_eq_ok]

theorem check_of_mem {schemas : Members} (h : checkEach schemas = .ok ())
    (hmem : (name, nested) ∈ schemas) : check nested = .ok () := by
  induction schemas with
  | nil => cases hmem
  | cons m schemas ih =>
    rw [checkEach, Result.seq_eq_ok] at h
    rcases List.mem_cons.1 hmem with rfl | hmem
    · exact h.1
    · exact ih h.2 hmem

theorem checkProperties_eq (ms : Members) : checkProperties ms = checkEach (declared ms) := by
  induction ms with
  | nil => rfl
  | cons m ms ih =>
    obtain ⟨k, v⟩ := m
    unfold declared at ih ⊢
    rw [Dict.get?_cons]
    by_cases hk : k = "properties"
    · rw [if_pos hk]
      cases v <;> simp [checkProperties, hk, checkEach]
    · rw [if_neg hk, ← ih]
      cases v <;> simp [checkProperties, hk]

/-- The schema that is declared for a name has been checked. -/
theorem check_of_declared (h : check (.obj keywords) = .ok ())
    (hdeclared : Dict.get? (declared keywords) name = some nested) : check nested = .ok () := by
  have hproperties := (check_obj.1 h).2.1
  rw [checkProperties_eq] at hproperties
  exact check_of_mem hproperties (Dict.mem_of_get? hdeclared)

/-- The schema of the items has been checked. -/
theorem check_of_items (h : check (.obj keywords) = .ok ())
    (hitems : Dict.get? keywords "items" = some nested) : check nested = .ok () := by
  have hchecked := (check_obj.1 h).2.2
  clear h
  induction keywords with
  | nil => cases hitems
  | cons m keywords ih =>
    obtain ⟨k, v⟩ := m
    rw [checkItems] at hchecked
    rw [Dict.get?_cons] at hitems
    split at hitems
    · rename_i hk
      cases hitems
      rwa [if_pos hk] at hchecked
    · rename_i hk
      rw [if_neg hk] at hchecked
      exact ih hitems hchecked

/-! ### What a document is tested for -/

/-- Tests what a schema says of the members or the elements of a value. -/
def validateNested (keywords : Members) (path : Location) : Json → Except PropertyError Unit
  | .obj ms => do
    validateRequired keywords path ms
    validateMembers (declared keywords) path ms
    validateAdditional keywords path ms
  | .arr xs =>
    match Dict.get? keywords "items" with
    | some items => validateItems items path 0 xs
    | none => .ok ()
  | _ => .ok ()

theorem validateAt_null (path : Location) (data : Json) :
    validateAt .null path data = .error (.invalidSchema (.notObject path)) := by
  cases data <;> rfl

theorem validateAt_obj (keywords : Members) (path : Location) (data : Json) :
    validateAt (.obj keywords) path data = (do
      validateType keywords path data
      validateNested keywords path data
      validateEnum keywords path data
      validateRange keywords path data
      validateLength keywords path data) := by
  cases data <;> rfl

/-- Tests a member against the schema that is declared for its name, if there is one. -/
def validateMember (schemas : Members) (path : Location) (name : String) (v : Json) :
    Except PropertyError Unit :=
  match Dict.get? schemas name with
  | some schema => validateAt schema (join path name) v
  | none => .ok ()

theorem validateMembers_cons (schemas : Members) (path : Location) (name : String) (v : Json)
    (ms : Members) :
    validateMembers schemas path ((name, v) :: ms) = (do
      validateMember schemas path name v
      validateMembers schemas path ms) := by
  rw [validateMembers, validateMember]
  cases Dict.get? schemas name <;> rfl

theorem validateItems_cons (schema : Json) (path : Location) (index : Nat) (v : Json)
    (xs : List Json) :
    validateItems schema path index (v :: xs) = (do
      validateAt schema (join path (toString index)) v
      validateItems schema path (index + 1) xs) := rfl

/-! ### Faults of the keywords -/

theorem validateType_ne_invalidSchema (h : checkType keywords = .ok ()) :
    validateType keywords path data ≠ .error (.invalidSchema fault) := by
  unfold checkType at h
  unfold validateType
  cases htype : Dict.get? keywords "type" with
  | none => exact nofun
  | some type =>
    rw [htype] at h
    cases type with
    | str expected =>
      simp only
      split <;> exact nofun
    | _ => cases h

theorem validateRequired_ne_invalidSchema :
    validateRequired keywords path ms ≠ .error (.invalidSchema fault) := by
  unfold validateRequired
  split <;> exact nofun

theorem validateAdditional_ne_invalidSchema :
    validateAdditional keywords path ms ≠ .error (.invalidSchema fault) := by
  unfold validateAdditional
  split
  · split <;> exact nofun
  · exact nofun

theorem validateEnum_ne_invalidSchema :
    validateEnum keywords path data ≠ .error (.invalidSchema fault) := by
  unfold validateEnum
  split
  · split <;> exact nofun
  · exact nofun

theorem validateRange_ne_invalidSchema :
    validateRange keywords path data ≠ .error (.invalidSchema fault) := by
  unfold validateRange
  split
  · exact nofun
  · split
    · exact nofun
    · split <;> exact nofun

theorem validateLength_ne_invalidSchema :
    validateLength keywords path data ≠ .error (.invalidSchema fault) := by
  unfold validateLength
  split
  · simp only
    split
    · exact nofun
    · split <;> exact nofun
  · exact nofun

/-- What a checked schema itself says of a value is no fault of the schema. What is left are
    the schemas of members and elements. -/
theorem validateNested_of_validateAt (hchecked : check (.obj keywords) = .ok ())
    (h : validateAt (.obj keywords) path data = .error (.invalidSchema fault)) :
    validateNested keywords path data = .error (.invalidSchema fault) := by
  simp only [validateAt_obj, Result.seq_eq_error] at h
  rcases h with h | ⟨_, h | ⟨_, h | ⟨_, h | ⟨_, h⟩⟩⟩⟩
  · exact absurd h (validateType_ne_invalidSchema (check_obj.1 hchecked).1)
  · exact h
  · exact absurd h validateEnum_ne_invalidSchema
  · exact absurd h validateRange_ne_invalidSchema
  · exact absurd h validateLength_ne_invalidSchema

/-! ### Locations and their schemas -/

/-- `Governs schema path data nested place value`: in a document that is tested at `path`
    against a schema, the value at a place is tested against a nested schema. Members are
    governed by the schema declared for their name, elements by that of the items. -/
inductive Governs : Json → Location → Json → Json → Location → Json → Prop
  | whole (schema : Json) (path : Location) (data : Json) :
    Governs schema path data schema path data
  | member {keywords ms : Members} {path place : Location} {name : String}
    {declaredSchema v nested value : Json}
    (hdeclared : Dict.get? (declared keywords) name = some declaredSchema) (hmem : (name, v) ∈ ms)
    (h : Governs declaredSchema (join path name) v nested place value) :
    Governs (.obj keywords) path (.obj ms) nested place value
  | element {keywords : Members} {xs : List Json} {path place : Location} {index : Nat}
    {items v nested value : Json}
    (hitems : Dict.get? keywords "items" = some items) (hget : xs[index]? = some v)
    (h : Governs items (join path (toString index)) v nested place value) :
    Governs (.obj keywords) path (.arr xs) nested place value

mutual

/-- **A checked schema fails as a schema where null governs.** -/
theorem fault_of_validateAt : ∀ (data : Json) {schema : Json} {path : Location}
    {fault : SchemaFault}, check schema = .ok () →
      validateAt schema path data = .error (.invalidSchema fault) →
      ∃ place value, fault = .notObject place ∧ Governs schema path data .null place value
  | data, .null, path, fault, _, h => by
    rw [validateAt_null] at h
    cases h
    exact ⟨path, data, rfl, .whole ..⟩
  | .obj ms, .obj keywords, path, fault, hchecked, h => by
    have hnested := validateNested_of_validateAt hchecked h
    simp only [validateNested, Result.seq_eq_error] at hnested
    rcases hnested with hnested | ⟨_, hnested | ⟨_, hnested⟩⟩
    · exact absurd hnested validateRequired_ne_invalidSchema
    · obtain ⟨name, v, declaredSchema, hdeclared, hmem, place, value, rfl, hgoverns⟩ :=
        fault_of_validateMembers ms
          (fun _ _ hdeclared => check_of_declared hchecked hdeclared) hnested
      exact ⟨place, value, rfl, .member hdeclared hmem hgoverns⟩
    · exact absurd hnested validateAdditional_ne_invalidSchema
  | .arr xs, .obj keywords, path, fault, hchecked, h => by
    have hnested := validateNested_of_validateAt hchecked h
    unfold validateNested at hnested
    cases hitems : Dict.get? keywords "items" with
    | none =>
      rw [hitems] at hnested
      cases hnested
    | some items =>
      rw [hitems] at hnested
      obtain ⟨offset, v, hget, place, value, rfl, hgoverns⟩ :=
        fault_of_validateItems xs (check_of_items hchecked hitems) hnested
      rw [Nat.zero_add] at hgoverns
      exact ⟨place, value, rfl, .element hitems hget hgoverns⟩
  | .null, .obj _, _, _, hchecked, h => nomatch validateNested_of_validateAt hchecked h
  | .bool _, .obj _, _, _, hchecked, h => nomatch validateNested_of_validateAt hchecked h
  | .num _, .obj _, _, _, hchecked, h => nomatch validateNested_of_validateAt hchecked h
  | .str _, .obj _, _, _, hchecked, h => nomatch validateNested_of_validateAt hchecked h

theorem fault_of_validateMembers : ∀ (ms : List (String × Json)) {schemas : Members}
    {path : Location} {fault : SchemaFault},
      (∀ name schema, Dict.get? schemas name = some schema → check schema = .ok ()) →
      validateMembers schemas path ms = .error (.invalidSchema fault) →
      ∃ name v schema, Dict.get? schemas name = some schema ∧ (name, v) ∈ ms ∧
        ∃ place value, fault = .notObject place ∧
          Governs schema (join path name) v .null place value
  | [], _, _, _, _, h => nomatch h
  | (name, v) :: ms, schemas, path, fault, hchecked, h => by
    rw [validateMembers_cons, Result.seq_eq_error] at h
    rcases h with h | ⟨_, h⟩
    · unfold validateMember at h
      cases hschema : Dict.get? schemas name with
      | none =>
        rw [hschema] at h
        cases h
      | some schema =>
        rw [hschema] at h
        exact ⟨name, v, schema, hschema, List.mem_cons_self ..,
          fault_of_validateAt v (hchecked name schema hschema) h⟩
    · obtain ⟨name', v', schema, hschema, hmem, hplace⟩ := fault_of_validateMembers ms hchecked h
      exact ⟨name', v', schema, hschema, List.mem_cons_of_mem _ hmem, hplace⟩

theorem fault_of_validateItems : ∀ (xs : List Json) {schema : Json} {path : Location}
    {index : Nat} {fault : SchemaFault}, check schema = .ok () →
      validateItems schema path index xs = .error (.invalidSchema fault) →
      ∃ offset v, xs[offset]? = some v ∧ ∃ place value, fault = .notObject place ∧
        Governs schema (join path (toString (index + offset))) v .null place value
  | [], _, _, _, _, _, h => nomatch h
  | v :: xs, schema, path, index, fault, hchecked, h => by
    rw [validateItems_cons, Result.seq_eq_error] at h
    rcases h with h | ⟨_, h⟩
    · exact ⟨0, v, rfl, fault_of_validateAt v hchecked h⟩
    · obtain ⟨offset, v', hget, hplace⟩ := fault_of_validateItems xs hchecked h
      refine ⟨offset + 1, v', hget, ?_⟩
      rwa [Nat.add_assoc, Nat.add_comm 1] at hplace

end

/-! ### Accepted documents -/

theorem validateMembers_eq_ok {schemas : Members} : validateMembers schemas path ms = .ok () ↔
    ∀ m ∈ ms, validateMember schemas path m.1 m.2 = .ok () := by
  induction ms with
  | nil => simp [validateMembers]
  | cons m ms ih =>
    obtain ⟨name, v⟩ := m
    rw [validateMembers_cons, Result.seq_eq_ok, ih, List.forall_mem_cons]

theorem validateItems_eq_ok {xs : List Json} {index : Nat} :
    validateItems schema path index xs = .ok () ↔
      ∀ offset v, xs[offset]? = some v →
        validateAt schema (join path (toString (index + offset))) v = .ok () := by
  induction xs generalizing index with
  | nil => simp [validateItems]
  | cons v xs ih =>
    rw [validateItems_cons, Result.seq_eq_ok, ih]
    constructor
    · rintro ⟨hv, hxs⟩ (_ | offset) v' hget
      · cases hget
        exact hv
      · have hv' := hxs offset v' hget
        rwa [Nat.add_assoc, Nat.add_comm 1] at hv'
    · intro h
      refine ⟨h 0 v rfl, fun offset v' hget => ?_⟩
      rw [Nat.add_assoc, Nat.add_comm 1]
      exact h (offset + 1) v' hget

/-- **An accepted document passes at each of its locations.** -/
theorem Governs.validateAt_eq_ok {place : Location} {value : Json}
    (h : Governs schema path data nested place value)
    (haccepted : validateAt schema path data = .ok ()) : validateAt nested place value = .ok () := by
  induction h with
  | whole => exact haccepted
  | member hdeclared hmem _ ih =>
    simp only [validateAt_obj, validateNested, Result.seq_eq_ok] at haccepted
    have hmember := validateMembers_eq_ok.1 haccepted.2.1.2.1 _ hmem
    simp only [validateMember, hdeclared] at hmember
    exact ih hmember
  | element hitems hget _ ih =>
    simp only [validateAt_obj, validateNested, hitems, Result.seq_eq_ok] at haccepted
    have helement := validateItems_eq_ok.1 haccepted.2.1 _ _ hget
    rw [Nat.zero_add] at helement
    exact ih helement

/-! ### Faults of checked schemas -/

/-- The document that the properties of a reference are tested as. -/
def document (properties : Members) : Json := .obj ((properties.erase "_id").erase "_rev")

/-- Properties have a location that is tested against null. Null as the whole schema does not
    count: nothing is tested against it. -/
def NullGoverns (schema : Json) (properties : Members) (place : Location) : Prop :=
  schema.isNull = false ∧ ∃ value, Governs schema "" (document properties) .null place value

/-- **A checked schema fails as a schema only where it puts null**: if properties are refused
    for a fault of the schema, then for a null that governs one of their locations. Properties
    with such a location are refused in any case, if not for this then for a fault of theirs. -/
theorem validate_fault_of_checked (schema : Json) (properties : Members)
    (hchecked : check schema = .ok ()) :
    (∀ fault, validate schema properties = .error (.invalidSchema fault) →
      ∃ place, fault = .notObject place ∧ NullGoverns schema properties place) ∧
    ((∃ place, NullGoverns schema properties place) → validate schema properties ≠ .ok ()) := by
  constructor
  · intro fault h
    unfold validate at h
    split at h
    · cases h
    · rename_i hnull
      obtain ⟨place, value, hfault, hgoverns⟩ := fault_of_validateAt _ hchecked h
      exact ⟨place, hfault, by simpa using hnull, value, hgoverns⟩
  · rintro ⟨place, hnull, value, hgoverns⟩ haccepted
    rw [validate, if_neg (by simp [hnull])] at haccepted
    have hnone := hgoverns.validateAt_eq_ok haccepted
    rw [validateAt_null] at hnone
    cases hnone

/-- Grants have a type and tags, and nothing is said of a tag. -/
def tagged : Json := .obj [("properties", .obj [
  ("grant", .obj [("type", .str "string")]),
  ("tags", .obj [("items", .null)])])]

/-- A tag is refused for a fault of the schema, and its place is where the schema has null. -/
theorem validate_fault_of_checked_tags :
    check tagged = .ok () ∧
    validate tagged [("grant", .str "direct"), ("tags", .arr [.str "new"])] =
      .error (.invalidSchema (.notObject "/tags/0")) ∧
    NullGoverns tagged [("grant", .str "direct"), ("tags", .arr [.str "new"])] "/tags/0" := by
  have hchecked : check tagged = .ok () := by rfl
  have hfault : validate tagged [("grant", .str "direct"), ("tags", .arr [.str "new"])] =
      .error (.invalidSchema (.notObject "/tags/0")) := by rfl
  obtain ⟨place, hplace, hgoverns⟩ := (validate_fault_of_checked tagged _ hchecked).1 _ hfault
  cases hplace
  exact ⟨hchecked, hfault, hgoverns⟩

/-- **A schema that has been checked may fail as a schema**: null is taken for the schema of a
    property and refused when the property is there. -/
theorem checked_schema_fails :
    check (.obj [("properties", .obj [("grant", .null)])]) = .ok () ∧
    validate (.obj [("properties", .obj [("grant", .null)])]) [("grant", .str "direct")] =
      .error (.invalidSchema (.notObject "/grant")) :=
  ⟨rfl, rfl⟩

end Schema

end EdgeFields
