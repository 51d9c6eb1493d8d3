/-
  EdgeFields/Proofs/SchemaMeaning.lean
  ====================================
  **What a schema means.**

  A schema says something of a document at each location that it governs: of the value's type,
  of its names, of the values that are listed, of its range and its length (`Schema.Meets`).
  None of this is about the order in which it is tested, and each part is about one kind of
  value only. A document satisfies a schema if it meets at every location what the schema that
  governs there says (`Schema.Satisfies`).

  Validation stops at the first fault. Without one it has tested everything: a keyword's test
  passes exactly if what the keyword says is met, and the tests below a location are those of
  the schemas that govern there (`Schema.validateAt_eq_ok`). So the properties that are accepted
  are those that satisfy the schema (`Schema.validate_iff_satisfies`).
-/
import EdgeFields.Proofs.DoubleValue
import EdgeFields.Proofs.SchemaFault

namespace EdgeFields.Schema

/-! ### What a schema says of a value -/

/-- The values of each type. An integer is a number without a fractional part, however it is
    written. -/
inductive HasType : String → Json → Prop
  | null : HasType "null" .null
  | boolean (b : Bool) : HasType "boolean" (.bool b)
  | number (n : Number) : HasType "number" (.num n)
  | string (s : String) : HasType "string" (.str s)
  | array (xs : List Json) : HasType "array" (.arr xs)
  | object (ms : Members) : HasType "object" (.obj ms)
  | integer (i : Int) : HasType "integer" (.num (.int i))
  | whole {x : Double} {i : Int} (h : x.value = i) : HasType "integer" (.num (.float x))

/-- A value meets what a schema with the keywords says of it alone. Numbers are compared by
    the doubles that they denote. -/
structure Meets (keywords : Members) (value : Json) : Prop where
  hasType : ∀ name, Dict.get? keywords "type" = some (.str name) → HasType name value
  required : ∀ ms, value = .obj ms → ∀ names, Dict.get? keywords "required" = some (.arr names) →
    ∀ name, .str name ∈ names → name ∈ ms.map (·.1)
  closed : ∀ ms, value = .obj ms →
    Dict.get? keywords "additionalProperties" = some (.bool false) → ∀ name ∈ ms.map (·.1),
      ∃ schemas, Dict.get? keywords "properties" = some (.obj schemas) ∧
        name ∈ schemas.map (·.1)
  listed : ∀ allowed, Dict.get? keywords "enum" = some (.arr allowed) →
    ∃ a ∈ allowed, (a == value) = true
  minimum : ∀ n, value = .num n → ∀ m, Dict.get? keywords "minimum" = some (.num m) →
    m.toDouble.value ≤ n.toDouble.value
  maximum : ∀ n, value = .num n → ∀ m, Dict.get? keywords "maximum" = some (.num m) →
    n.toDouble.value ≤ m.toDouble.value
  minLength : ∀ s, value = .str s →
    ∀ k : Nat, Dict.get? keywords "minLength" = some (.num (.int k)) → k ≤ s.length
  maxLength : ∀ s, value = .str s →
    ∀ k : Nat, Dict.get? keywords "maxLength" = some (.num (.int k)) → s.length ≤ k

/-- The keywords of a schema. Null has none. -/
def keywordsOf : Json → Members
  | .obj keywords => keywords
  | _ => []

/-- A document satisfies a schema if it meets, at every location, what is said there. -/
def Satisfies (schema data : Json) : Prop :=
  ∀ nested place value, Governs schema "" data nested place value → Meets (keywordsOf nested) value

/-- A schema stands in the keywords of another, for a property or for the items. -/
inductive Part (keywords : Members) : Json → Prop
  | property {name : String} {nested : Json}
    (h : Dict.get? (declared keywords) name = some nested) : Part keywords nested
  | items {nested : Json} (h : Dict.get? keywords "items" = some nested) : Part keywords nested

/-- A schema stands in another at any depth. -/
inductive Within : Json → Json → Prop
  | direct {keywords : Members} {nested : Json} (h : Part keywords nested) :
    Within nested (.obj keywords)
  | deeper {keywords : Members} {middle nested : Json} (h : Part keywords middle)
    (h' : Within nested middle) : Within nested (.obj keywords)

/-- Nothing is said of a value without keywords. -/
theorem meets_nil {value : Json} : Meets [] value := by
  constructor <;> intros <;> contradiction

/-! ### Single keywords -/

variable {keywords ms : Members} {path place : Location} {name : String}
  {schema nested data value v : Json}

theorem contains_iff {d : Members} {key : String} :
    Dict.contains d key = true ↔ key ∈ d.map (·.1) := by
  induction d with
  | nil => simp [Dict.contains]
  | cons m d ih =>
    obtain ⟨k, v⟩ := m
    unfold Dict.contains at ih ⊢
    rw [Dict.get?_cons, List.map_cons, List.mem_cons, ← ih]
    split
    · next hk => simp [hk]
    · next hk => simp [Ne.symm hk]

theorem isIntegral_num (n : Number) : isIntegral (.num n) = n.toDouble.isIntegral := by
  rw [isIntegral, asDouble?, Option.any_some]

theorem isIntegral_iff : isIntegral value = true ↔
    (∃ i, value = .num (.int i)) ∨
      ∃ (x : Double) (i : Int), value = .num (.float x) ∧ x.value = i := by
  cases value with
  | num n =>
    rw [isIntegral_num]
    cases n with
    | int i =>
      rw [Number.toDouble, Double.isIntegral_ofInt]
      simp
    | float x =>
      rw [Number.toDouble, Double.isIntegral_iff]
      simp
  | _ => simp [isIntegral, asDouble?]

theorem hasType_iff : hasType name value = true ↔ HasType name value := by
  unfold hasType
  rw [Bool.or_eq_true, Bool.and_eq_true, beq_iff_eq, beq_iff_eq, isIntegral_iff]
  constructor
  · rintro (rfl | ⟨rfl, ⟨i, rfl⟩ | ⟨x, i, rfl, hi⟩⟩)
    · cases value <;> constructor
    · exact .integer i
    · exact .whole hi
  · intro h
    cases h with
    | integer i => exact .inr ⟨rfl, .inl ⟨i, rfl⟩⟩
    | whole hi => exact .inr ⟨rfl, .inr ⟨_, _, rfl, hi⟩⟩
    | _ => exact .inl rfl

theorem validateType_eq_ok (h : checkType keywords = .ok ()) :
    validateType keywords path value = .ok () ↔
      ∀ name, Dict.get? keywords "type" = some (.str name) → HasType name value := by
  unfold checkType at h
  unfold validateType
  cases htype : Dict.get? keywords "type" with
  | none => simp
  | some type =>
    rw [htype] at h
    cases type with
    | str expected =>
      simp only [Option.some.injEq, Json.str.injEq, forall_eq', ← hasType_iff]
      split
      · next hvalue => simp [hvalue]
      · next hvalue => simp [hvalue]
    | _ => cases h

theorem validateRequired_eq_ok :
    validateRequired keywords path ms = .ok () ↔
      ∀ names, Dict.get? keywords "required" = some (.arr names) →
        ∀ name, .str name ∈ names → name ∈ ms.map (·.1) := by
  have hnames : (∀ name ∈ requiredNames keywords, name ∈ ms.map (·.1)) ↔
      ∀ names, Dict.get? keywords "required" = some (.arr names) →
        ∀ name, .str name ∈ names → name ∈ ms.map (·.1) := by
    unfold requiredNames
    split
    · next names hnames =>
      have hmem : ∀ name, name ∈ names.filterMap Json.asStr? ↔ Json.str name ∈ names := by
        intro name
        rw [List.mem_filterMap]
        constructor
        · rintro ⟨j, hj, hname⟩
          cases j with
          | str s =>
            cases hname
            exact hj
          | _ => cases hname
        · exact fun h => ⟨_, h, rfl⟩
      simp only [hnames, hmem, Option.some.injEq, Json.arr.injEq, forall_eq']
    · next hnone => exact iff_of_true nofun fun names hnames => absurd hnames (hnone names)
  rw [← hnames]
  unfold validateRequired
  split
  · next name hfind =>
    have hmissing := List.find?_some hfind
    simp only [Bool.not_eq_true', ← Bool.not_eq_true, contains_iff] at hmissing
    exact iff_of_false nofun fun h => hmissing (h name (List.mem_of_find?_eq_some hfind))
  · next hfind =>
    refine iff_of_true rfl fun name hname => ?_
    have hnot := List.find?_eq_none.1 hfind name hname
    simpa [contains_iff] using hnot

theorem validateAdditional_eq_ok :
    validateAdditional keywords path ms = .ok () ↔
      (Dict.get? keywords "additionalProperties" = some (.bool false) →
        ∀ name ∈ ms.map (·.1), ∃ schemas,
          Dict.get? keywords "properties" = some (.obj schemas) ∧ name ∈ schemas.map (·.1)) := by
  have hdeclared : ∀ name, Dict.contains (declared keywords) name = true ↔ ∃ schemas,
      Dict.get? keywords "properties" = some (.obj schemas) ∧ name ∈ schemas.map (·.1) := by
    intro name
    rw [contains_iff]
    unfold declared
    split
    · next schemas hschemas => simp [hschemas]
    · next hnone => simpa using fun schemas hschemas => absurd hschemas (hnone schemas)
  simp only [← hdeclared]
  unfold validateAdditional
  split
  · next hclosed =>
    split
    · next m hfind =>
      have hmissing := List.find?_some hfind
      refine iff_of_false nofun fun h => ?_
      rw [h hclosed m.1 (List.mem_map_of_mem (List.mem_of_find?_eq_some hfind))] at hmissing
      cases hmissing
    · next hfind =>
      refine iff_of_true rfl fun _ name hname => ?_
      obtain ⟨m, hm, rfl⟩ := List.mem_map.1 hname
      simpa using List.find?_eq_none.1 hfind m hm
  · next hopen => exact iff_of_true rfl fun hclosed => absurd hclosed hopen

theorem validateEnum_eq_ok :
    validateEnum keywords path value = .ok () ↔
      ∀ allowed, Dict.get? keywords "enum" = some (.arr allowed) →
        ∃ a ∈ allowed, (a == value) = true := by
  unfold validateEnum
  split
  · next allowed hallowed =>
    simp only [hallowed, Option.some.injEq, Json.arr.injEq, forall_eq', ← List.any_eq_true]
    split
    · next hlisted => simp [hlisted]
    · next hlisted => simp [hlisted]
  · next hnone => exact iff_of_true rfl fun allowed hallowed => absurd hallowed (hnone allowed)

/-- A keyword's number that no value offends. -/
theorem bound?_filter_eq_none {key : String} {p : Double → Bool} :
    (bound? keywords key).filter p = none ↔
      ∀ m, Dict.get? keywords key = some (.num m) → p m.toDouble = false := by
  unfold bound?
  cases hkey : Dict.get? keywords key with
  | none => simp
  | some j => cases j <;> simp [asDouble?]

theorem limit?_filter_eq_none {key : String} {p : Nat → Bool} :
    (limit? keywords key).filter p = none ↔
      ∀ k : Nat, Dict.get? keywords key = some (.num (.int k)) → p k = false := by
  unfold limit?
  cases hkey : Dict.get? keywords key with
  | none => simp
  | some j =>
    cases j with
    | num n =>
      cases n with
      | int i =>
        cases i with
        | ofNat k => simp [Json.asNat?]
        | negSucc k => simp [Json.asNat?]
      | float x => simp [Json.asNat?]
    | _ => simp [Json.asNat?]

theorem validateRange_eq_ok :
    validateRange keywords path value = .ok () ↔
      (∀ n, value = .num n → ∀ m, Dict.get? keywords "minimum" = some (.num m) →
        m.toDouble.value ≤ n.toDouble.value) ∧
      (∀ n, value = .num n → ∀ m, Dict.get? keywords "maximum" = some (.num m) →
        n.toDouble.value ≤ m.toDouble.value) := by
  cases value with
  | num n =>
    have hminimum : (bound? keywords "minimum").filter (Ord.compare n.toDouble · == .lt) = none ↔
        ∀ m, Dict.get? keywords "minimum" = some (.num m) →
          m.toDouble.value ≤ n.toDouble.value := by
      simp only [bound?_filter_eq_none, beq_eq_false_iff_ne, ne_eq, Double.compare_lt_iff, not_lt]
    have hmaximum : (bound? keywords "maximum").filter (Ord.compare n.toDouble · == .gt) = none ↔
        ∀ m, Dict.get? keywords "maximum" = some (.num m) →
          n.toDouble.value ≤ m.toDouble.value := by
      simp only [bound?_filter_eq_none, beq_eq_false_iff_ne, ne_eq, Double.compare_gt_iff, not_lt]
    simp only [Json.num.injEq, forall_eq', ← hminimum, ← hmaximum]
    unfold validateRange
    simp only [asDouble?]
    split
    · next hbelow => simp [hbelow]
    · next hbelow =>
      split
      · next habove => simp [hbelow, habove]
      · next habove => simp [hbelow, habove]
  | _ => simp [validateRange, asDouble?]

theorem validateLength_eq_ok :
    validateLength keywords path value = .ok () ↔
      (∀ s, value = .str s →
        ∀ k : Nat, Dict.get? keywords "minLength" = some (.num (.int k)) → k ≤ s.length) ∧
      (∀ s, value = .str s →
        ∀ k : Nat, Dict.get? keywords "maxLength" = some (.num (.int k)) → s.length ≤ k) := by
  cases value with
  | str s =>
    have hshort : (limit? keywords "minLength").filter (fun m => s.length < m) = none ↔
        ∀ k : Nat, Dict.get? keywords "minLength" = some (.num (.int k)) → k ≤ s.length := by
      simp only [limit?_filter_eq_none, decide_eq_false_iff_not, not_lt]
    have hlong : (limit? keywords "maxLength").filter (fun m => m < s.length) = none ↔
        ∀ k : Nat, Dict.get? keywords "maxLength" = some (.num (.int k)) → s.length ≤ k := by
      simp only [limit?_filter_eq_none, decide_eq_false_iff_not, not_lt]
    simp only [Json.str.injEq, forall_eq', ← hshort, ← hlong]
    unfold validateLength
    simp only
    split
    · next hbelow => simp [hbelow]
    · next hbelow =>
      split
      · next habove => simp [hbelow, habove]
      · next habove => simp [hbelow, habove]
  | _ => simp [validateLength]

/-! ### One location -/

/-- A schema governs a member or an element of a value that is tested at a path. -/
inductive Below (keywords : Members) (path : Location) : Json → Json → Location → Json → Prop
  | member {ms : Members} {name : String} {nested v : Json}
    (hdeclared : Dict.get? (declared keywords) name = some nested) (hmem : (name, v) ∈ ms) :
    Below keywords path (.obj ms) nested (join path name) v
  | element {xs : List Json} {index : Nat} {items v : Json}
    (hitems : Dict.get? keywords "items" = some items) (hget : xs[index]? = some v) :
    Below keywords path (.arr xs) items (join path (toString index)) v

theorem Below.part (h : Below keywords path data nested place v) : Part keywords nested := by
  cases h with
  | member hdeclared _ => exact .property hdeclared
  | element hitems _ => exact .items hitems

theorem Below.governs {nested' : Json} {place' : Location} {value : Json}
    (h : Below keywords path data nested place v)
    (h' : Governs nested place v nested' place' value) :
    Governs (.obj keywords) path data nested' place' value := by
  cases h with
  | member hdeclared hmem => exact .member hdeclared hmem h'
  | element hitems hget => exact .element hitems hget h'

theorem Below.sizeOf_lt (h : Below keywords path data nested place v) :
    sizeOf v < sizeOf data := by
  cases h with
  | member _ hmem =>
    have hlt := List.sizeOf_lt_of_mem hmem
    simp only [Prod.mk.sizeOf_spec, Json.obj.sizeOf_spec] at hlt ⊢
    omega
  | element _ hget =>
    have hlt := List.sizeOf_lt_of_mem (List.mem_of_getElem? hget)
    simp only [Json.arr.sizeOf_spec] at hlt ⊢
    omega

/-- What a schema says of the members or the elements of a value is met, and everything below
    the value is accepted. -/
theorem validateNested_eq_ok :
    validateNested keywords path data = .ok () ↔
      (∀ ms, data = .obj ms → validateRequired keywords path ms = .ok () ∧
        validateAdditional keywords path ms = .ok ()) ∧
      ∀ nested place v, Below keywords path data nested place v →
        validateAt nested place v = .ok () := by
  cases data with
  | obj ms =>
    have hmembers : validateMembers (declared keywords) path ms = .ok () ↔
        ∀ nested place v, Below keywords path (.obj ms) nested place v →
          validateAt nested place v = .ok () := by
      rw [validateMembers_eq_ok]
      constructor
      · intro h _ _ _ hbelow
        cases hbelow with
        | member hdeclared hmem => simpa [validateMember, hdeclared] using h _ hmem
      · rintro h ⟨name, v⟩ hmem
        unfold validateMember
        split
        · next nested hdeclared => exact h _ _ _ (.member hdeclared hmem)
        · rfl
    simp only [validateNested, Result.seq_eq_ok, hmembers, Json.obj.injEq, forall_eq']
    exact ⟨fun ⟨hrequired, hbelow, hclosed⟩ => ⟨⟨hrequired, hclosed⟩, hbelow⟩,
      fun ⟨⟨hrequired, hclosed⟩, hbelow⟩ => ⟨hrequired, hbelow, hclosed⟩⟩
  | arr xs =>
    have hitems : validateNested keywords path (.arr xs) = .ok () ↔
        ∀ nested place v, Below keywords path (.arr xs) nested place v →
          validateAt nested place v = .ok () := by
      unfold validateNested
      cases hitems : Dict.get? keywords "items" with
      | none =>
        refine iff_of_true rfl fun _ _ _ hbelow => ?_
        cases hbelow with
        | element hsome _ =>
          rw [hitems] at hsome
          cases hsome
      | some items =>
        simp only [validateItems_eq_ok, Nat.zero_add]
        constructor
        · intro h _ _ _ hbelow
          cases hbelow with
          | element hsome hget =>
            rw [hitems] at hsome
            cases hsome
            exact h _ _ hget
        · exact fun h index v hget => h _ _ _ (.element hitems hget)
    simp [hitems]
  | _ =>
    refine iff_of_true rfl ⟨nofun, fun _ _ _ hbelow => ?_⟩
    cases hbelow

/-- **A value is accepted if it meets what the schema says of it, and everything below it is
    accepted.** -/
theorem validateAt_eq_ok (h : checkType keywords = .ok ()) :
    validateAt (.obj keywords) path data = .ok () ↔ Meets keywords data ∧
      ∀ nested place v, Below keywords path data nested place v →
        validateAt nested place v = .ok () := by
  simp only [validateAt_obj, Result.seq_eq_ok, validateType_eq_ok h, validateNested_eq_ok,
    validateRequired_eq_ok, validateAdditional_eq_ok, validateEnum_eq_ok, validateRange_eq_ok,
    validateLength_eq_ok]
  constructor
  · rintro ⟨htype, ⟨hnames, hbelow⟩, henum, ⟨hminimum, hmaximum⟩, hminLength, hmaxLength⟩
    exact ⟨⟨htype, fun ms hms => (hnames ms hms).1, fun ms hms => (hnames ms hms).2, henum,
      hminimum, hmaximum, hminLength, hmaxLength⟩, hbelow⟩
  · rintro ⟨hmeets, hbelow⟩
    exact ⟨hmeets.hasType, ⟨fun ms hms => ⟨hmeets.required ms hms, hmeets.closed ms hms⟩, hbelow⟩,
      hmeets.listed, ⟨hmeets.minimum, hmeets.maximum⟩, hmeets.minLength, hmeets.maxLength⟩

/-! ### All locations -/

theorem Governs.eq_or_within (h : Governs schema path data nested place value) :
    nested = schema ∨ Within nested schema := by
  induction h with
  | whole => exact .inl rfl
  | member hdeclared _ _ ih =>
    have hpart := Part.property hdeclared
    exact .inr (ih.elim (· ▸ .direct hpart) (.deeper hpart))
  | element hitems _ _ ih =>
    have hpart := Part.items hitems
    exact .inr (ih.elim (· ▸ .direct hpart) (.deeper hpart))

theorem Part.check (h : Part keywords nested) (hchecked : Schema.check (.obj keywords) = .ok ()) :
    Schema.check nested = .ok () := by
  cases h with
  | property h => exact check_of_declared hchecked h
  | items h => exact check_of_items hchecked h

theorem Within.check (h : Within nested schema) (hchecked : Schema.check schema = .ok ()) :
    Schema.check nested = .ok () := by
  induction h with
  | direct hpart => exact hpart.check hchecked
  | deeper hpart _ ih => exact ih (hpart.check hchecked)

/-- A document is accepted at a location if all that the schemas say there and below is met. -/
theorem validateAt_of_meets {schema data : Json} {path : Location}
    (hchecked : check schema = .ok ())
    (hobjects : ∀ nested, nested = schema ∨ Within nested schema →
      ∃ keywords, nested = .obj keywords)
    (h : ∀ nested place value, Governs schema path data nested place value →
      Meets (keywordsOf nested) value) :
    validateAt schema path data = .ok () := by
  obtain ⟨keywords, rfl⟩ := hobjects schema (.inl rfl)
  refine (validateAt_eq_ok (check_obj.1 hchecked).1).2 ⟨h _ _ _ (.whole ..), ?_⟩
  intro nested place v hbelow
  exact validateAt_of_meets (hbelow.part.check hchecked)
    (fun nested' hnested' => hobjects nested'
      (.inr (hnested'.elim (· ▸ .direct hbelow.part) (.deeper hbelow.part))))
    (fun nested' place' value hgoverns => h nested' place' value (hbelow.governs hgoverns))
termination_by data
decreasing_by exact hbelow.sizeOf_lt

/-- **The properties that are accepted are those that satisfy the schema.** -/
theorem validate_iff_satisfies (schema : Json) (properties : Members)
    (hchecked : check schema = .ok ())
    (hobjects : ∀ nested, Within nested schema → ∃ keywords, nested = .obj keywords) :
    validate schema properties = .ok () ↔ Satisfies schema (document properties) := by
  cases schema with
  | null =>
    refine iff_of_true rfl fun _ _ _ hgoverns => ?_
    cases hgoverns
    exact meets_nil
  | obj keywords =>
    have hall : ∀ nested, nested = .obj keywords ∨ Within nested (.obj keywords) →
        ∃ keywords, nested = .obj keywords := by
      rintro nested (rfl | hnested)
      · exact ⟨_, rfl⟩
      · exact hobjects nested hnested
    constructor
    · intro h nested place value hgoverns
      have hnested := hgoverns.eq_or_within
      have hcheck : check nested = .ok () := hnested.elim (· ▸ hchecked) (·.check hchecked)
      obtain ⟨keywords', rfl⟩ := hall nested hnested
      have haccepted := hgoverns.validateAt_eq_ok h
      exact ((validateAt_eq_ok (check_obj.1 hcheck).1).1 haccepted).1
    · exact fun h => validateAt_of_meets hchecked hall h
  | _ => cases hchecked

/-- The priority of a grant. -/
def priority : Json :=
  .obj [("maximum", .ofNat 10), ("minimum", .ofNat 0), ("type", .str "integer")]

/-- The kind of a grant. -/
def kind : Json := .obj [("enum", .arr [.str "direct", .str "conditional"])]

/-- Grants have a kind, and may have a priority, and nothing else. -/
def grant : Json := .obj [
  ("additionalProperties", .bool false),
  ("properties", .obj [
    ("kind", kind),
    ("priority", priority)]),
  ("required", .arr [.str "kind"])]

/-- A direct grant satisfies the schema, and one whose priority is too high does not. -/
theorem validate_iff_satisfies_grant :
    check grant = .ok () ∧ (∀ nested, Within nested grant → ∃ keywords, nested = .obj keywords) ∧
      Satisfies grant (document [("_id", .str "e1"), ("kind", .str "direct"),
        ("priority", .ofNat 2)]) ∧
      ¬ Satisfies grant (document [("kind", .str "direct"), ("priority", .ofNat 11)]) := by
  have hchecked : check grant = .ok () := by rfl
  have hobjects : ∀ nested, Within nested grant → ∃ keywords, nested = .obj keywords := by
    have hpart : ∀ {nested}, Part (keywordsOf grant) nested →
        nested = kind ∨ nested = priority := by
      rintro nested (h | h)
      · have hmem := Dict.mem_of_get? h
        simp [declared, keywordsOf, grant, Dict.get?] at hmem
        exact hmem.imp (·.2) (·.2)
      · simp [keywordsOf, grant, Dict.get?] at h
    have hleaf : ∀ {schema nested}, schema = kind ∨ schema = priority → ¬ Within nested schema := by
      rintro _ nested (rfl | rfl) (⟨h | h⟩ | ⟨h | h, _⟩) <;>
        simp [declared, Dict.get?] at h
    intro nested h
    cases h with
    | direct h => exact (hpart h).elim (fun h => ⟨_, h⟩) (fun h => ⟨_, h⟩)
    | deeper h h' => exact absurd h' (hleaf (hpart h))
  have haccepted : (validate grant [("_id", .str "e1"), ("kind", .str "direct"),
      ("priority", .ofNat 2)]).isOk = true := by decide +kernel
  have hrefused : (validate grant [("kind", .str "direct"),
      ("priority", .ofNat 11)]).isOk = false := by decide +kernel
  obtain ⟨_, hok⟩ := Result.eq_ok_of_isOk haccepted
  refine ⟨hchecked, hobjects, (validate_iff_satisfies grant _ hchecked hobjects).1 hok, ?_⟩
  intro hsatisfies
  rw [(validate_iff_satisfies grant _ hchecked hobjects).2 hsatisfies] at hrefused
  cases hrefused

end EdgeFields.Schema
