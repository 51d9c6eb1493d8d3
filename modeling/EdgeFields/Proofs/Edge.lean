/-
  EdgeFields/Proofs/Edge.lean
  ===========================
  **Edges as records and as what filters see.**

  The content of an edge is read back as that edge (`Edge.ofRecord_content`). A record
  that is read as an edge agrees with it in every member that a filter of the engine
  looks at (`Edge.Shows`), so that those filters can be evaluated on the edge: the filter
  of a relationship query holds of exactly the edges at the field
  (`Edge.Shows.accepts_relationshipFilter`), and the filter of an assignment of those whose
  opposite resource is the target (`Edge.Shows.accepts_assignmentFilter`).
-/
import EdgeFields.Engine.Validation
import EdgeFields.Proofs.Memory

namespace EdgeFields

/-! ### Leaves that compare with a text -/

namespace Filter

private theorem compare_beq_eq (x y : String) :
    (some (Ord.compare x y) == some Ordering.eq) = (x == y) := by
  have h := @Std.LawfulEqOrd.compare_eq_iff_eq String _ _ x y
  rw [Bool.eq_iff_iff, beq_iff_eq, Option.some.injEq, h, beq_iff_eq]

/-- A leaf that asks for a text holds of a member that is a text just when it is that
    text. -/
theorem accepts_equalTo_str {ms : Members} {key x y : String}
    (h : Dict.get? ms key = some (.str y)) :
    accepts (.equalTo (.field key) (.str x)) (.obj ms) = (y == x) := by
  have hresolve : (Pointer.field key).resolve (.obj ms) = some (.str y) := by
    simp [Pointer.resolve, Pointer.field, Pointer.step, h]
  simp only [equalTo, accepts, hresolve, Option.any_some, valueMatches, Json.satisfies,
    Json.compare?]
  exact compare_beq_eq y x

/-- A leaf that asks for a text does not hold of a member that is absent or null. -/
theorem accepts_equalTo_absent {ms : Members} {key x : String}
    (h : Dict.get? ms key = none ∨ Dict.get? ms key = some .null) :
    accepts (.equalTo (.field key) (.str x)) (.obj ms) = false := by
  rcases h with h | h
  · simp [equalTo, accepts, Pointer.resolve, Pointer.field, Pointer.step, h]
  · have hresolve : (Pointer.field key).resolve (.obj ms) = some .null := by
      simp [Pointer.resolve, Pointer.field, Pointer.step, h]
    simp only [equalTo, accepts, hresolve, Option.any_some, valueMatches, Json.satisfies]
    rfl

theorem accepts_equalTo_congr {ms ms' : Members} {key : String}
    (h : Dict.get? ms key = Dict.get? ms' key) (value : Json) :
    accepts (.equalTo (.field key) value) (.obj ms) =
      accepts (.equalTo (.field key) value) (.obj ms') := by
  simp [equalTo, accepts, Pointer.resolve, Pointer.field, Pointer.step, h]

end Filter

/-! ### Members that decode as texts -/

namespace Json

theorem required_asStr?_eq_some {ms : Members} {key x : String}
    (h : required asStr? ms key = some x) : Dict.get? ms key = some (.str x) := by
  unfold required at h
  rcases hget : Dict.get? ms key with _ | v
  · simp [hget] at h
  · rw [hget] at h
    cases v <;> simp [asStr?] at h
    rw [h]

theorem optional_asStr?_eq_some {ms : Members} {key : String} {x : Option String}
    (h : optional asStr? ms key = some x) :
    (x = none ∧ (Dict.get? ms key = none ∨ Dict.get? ms key = some .null)) ∨
      ∃ y, x = some y ∧ Dict.get? ms key = some (.str y) := by
  unfold optional at h
  rcases hget : Dict.get? ms key with _ | v
  · rw [hget] at h
    cases h
    exact .inl ⟨rfl, .inl rfl⟩
  · rw [hget] at h
    cases v <;> simp [asStr?] at h
    · exact .inl ⟨h.symm, .inr rfl⟩
    · exact .inr ⟨_, h.symm, rfl⟩

theorem defaulted_asObj?_eq_some {ms xs : Members} {key : String}
    (h : defaulted [] asObj? ms key = some xs) :
    Dict.get? ms key = some (.obj xs) ∨ (xs = [] ∧ Dict.get? ms key = none) := by
  unfold defaulted at h
  rcases hget : Dict.get? ms key with _ | v
  · rw [hget] at h
    cases h
    exact .inr ⟨rfl, rfl⟩
  · rw [hget] at h
    cases v <;> simp [asObj?] at h
    rw [h]
    exact .inl rfl

end Json

namespace Edge

/-! ### Contents -/

theorem withoutBookkeeping_content (e : Edge) :
    Record.withoutBookkeeping e.content = e.content := by
  obtain ⟨id, revision, firstId, firstName, secondId, secondName, properties⟩ := e
  cases secondName <;> rfl

/-- The content of an edge's record shows nothing of its identifier and revision. -/
theorem content_congr {e e' : Edge} (h1 : e.firstId = e'.firstId) (h2 : e.firstName = e'.firstName)
    (h3 : e.secondId = e'.secondId) (h4 : e.secondName = e'.secondName)
    (h5 : e.properties = e'.properties) : e.content = e'.content := by
  unfold content
  rw [h1, h2, h3, h4, h5]

/-- **The content of an edge is read back as the edge**, with the identifier and the
    revision of the record. -/
theorem ofRecord_content (e : Edge) (id revision : String) :
    ofRecord (.ofMembers id revision e.content) =
      .ok { e with id := some id, revision := some revision } := by
  obtain ⟨i, r, firstId, firstName, secondId, secondName, properties⟩ := e
  cases secondName <;> rfl

theorem ofRecord_eq_ok {record : Record} {e : Edge} (h : ofRecord record = .ok e) :
    e.id = some record.id ∧ e.revision = some record.revision := by
  unfold ofRecord at h
  split at h
  · cases h
    exact ⟨rfl, rfl⟩
  · cases h

/-! ### Endpoints -/

theorem opposite_of_firstIs {e : Edge} {owner field : String} (h : e.firstIs owner field = true) :
    e.opposite owner field = e.secondId := if_pos h

/-- Seen from the second endpoint the first one is opposite, also when the field stands at
    both. -/
theorem opposite_of_secondIs {e : Edge} {owner field : String}
    (h : e.secondIs owner field = true) : e.opposite owner field = e.firstId := by
  unfold opposite
  split
  · rename_i hfirst
    simp only [firstIs, secondIs, Bool.and_eq_true, beq_iff_eq] at h hfirst
    rw [h.1, hfirst.1]
  · rfl

/-! ### What filters see -/

/-- The members of a record's content show an edge: filters find its endpoints there. -/
structure Shows (ms : Members) (e : Edge) : Prop where
  firstId : Dict.get? ms firstIdKey = some (.str e.firstId)
  firstName : Dict.get? ms firstNameKey = some (.str e.firstName)
  secondId : Dict.get? ms secondIdKey = some (.str e.secondId)
  secondName :
    (e.secondName = none ∧ (Dict.get? ms secondNameKey = none ∨
      Dict.get? ms secondNameKey = some .null)) ∨
    ∃ name, e.secondName = some name ∧ Dict.get? ms secondNameKey = some (.str name)

theorem shows_of_ofJson? {ms : Members} {e : Edge} (h : ofJson? (.obj ms) = some e) :
    Shows ms e := by
  simp only [ofJson?, Json.asObj?, bind, Option.bind_eq_some_iff, Option.some.injEq,
    exists_eq_left', pure] at h
  obtain ⟨_, _, _, _, firstId, h1, firstName, h2, secondId, h3, secondName, h4, _, _, rfl⟩ := h
  exact ⟨Json.required_asStr?_eq_some h1, Json.required_asStr?_eq_some h2,
    Json.required_asStr?_eq_some h3, Json.optional_asStr?_eq_some h4⟩

theorem shows_of_ofRecord {id revision : String} {fields : Members} {e : Edge}
    (h : ofRecord (.ofMembers id revision fields) = .ok e) :
    Shows (Record.withBookkeeping id revision fields) e := by
  unfold ofRecord Record.ofMembers at h
  split at h
  · rename_i e' he'
    cases h
    obtain ⟨h1, h2, h3, h4⟩ := shows_of_ofJson? he'
    exact ⟨h1, h2, h3, h4⟩
  · cases h

namespace Shows

variable {ms : Members} {e : Edge}

theorem accepts_firstId (h : Shows ms e) (x : String) :
    Filter.accepts (.equalTo (.field firstIdKey) (.str x)) (.obj ms) = (e.firstId == x) :=
  Filter.accepts_equalTo_str h.firstId

theorem accepts_firstName (h : Shows ms e) (x : String) :
    Filter.accepts (.equalTo (.field firstNameKey) (.str x)) (.obj ms) = (e.firstName == x) :=
  Filter.accepts_equalTo_str h.firstName

theorem accepts_secondId (h : Shows ms e) (x : String) :
    Filter.accepts (.equalTo (.field secondIdKey) (.str x)) (.obj ms) = (e.secondId == x) :=
  Filter.accepts_equalTo_str h.secondId

theorem accepts_secondName (h : Shows ms e) (x : String) :
    Filter.accepts (.equalTo (.field secondNameKey) (.str x)) (.obj ms) =
      (e.secondName == some x) := by
  rcases h.secondName with ⟨hnone, habsent⟩ | ⟨name, hsome, hget⟩
  · rw [Filter.accepts_equalTo_absent habsent, hnone]
    rfl
  · rw [Filter.accepts_equalTo_str hget, hsome]
    rfl

/-- **The filter of a relationship query holds of the edges at the field.** -/
theorem accepts_relationshipFilter (h : Shows ms e) (owner field : String) :
    Filter.accepts (MemoryStore.relationshipFilter owner field) (.obj ms) =
      e.involves owner field := by
  simp only [MemoryStore.relationshipFilter, Filter.accepts, Filter.acceptsAny, Filter.acceptsAll,
    h.accepts_firstId, h.accepts_firstName, h.accepts_secondId, h.accepts_secondName,
    involves, firstIs, secondIs, Bool.and_true, Bool.or_false]

/-- **The filter of an assignment holds of the edges whose opposite resource is the
    target.** Only a reverse field is looked for at the second endpoint. -/
theorem accepts_assignmentFilter (h : Shows ms e) (b : BoundField) (owner target : String) :
    Filter.accepts (b.assignmentFilter owner target) (.obj ms) =
      (((e.firstIs owner b.field.name) || (b.field.isReverse && e.secondIs owner b.field.name)) &&
        e.opposite owner b.field.name == target) := by
  have hforward : Filter.accepts (.all [
      .equalTo (.field firstIdKey) (.str owner),
      .equalTo (.field firstNameKey) (.str b.field.name),
      .equalTo (.field secondIdKey) (.str target)]) (.obj ms) =
      (e.firstIs owner b.field.name && e.secondId == target) := by
    simp only [Filter.accepts, Filter.acceptsAll, h.accepts_firstId, h.accepts_firstName,
      h.accepts_secondId, firstIs, Bool.and_true, Bool.and_assoc]
  have hreverse : Filter.accepts (.all [
      .equalTo (.field secondIdKey) (.str owner),
      .equalTo (.field secondNameKey) (.str b.field.name),
      .equalTo (.field firstIdKey) (.str target)]) (.obj ms) =
      (e.secondIs owner b.field.name && e.firstId == target) := by
    simp only [Filter.accepts, Filter.acceptsAll, h.accepts_firstId, h.accepts_secondName,
      h.accepts_secondId, secondIs, Bool.and_true, Bool.and_assoc]
  unfold BoundField.assignmentFilter
  cases hrev : b.field.isReverse with
  | false =>
    simp only [Bool.false_eq_true, if_false, hforward, Bool.false_and, Bool.or_false]
    cases hfirst : e.firstIs owner b.field.name with
    | false => rfl
    | true => rw [opposite_of_firstIs hfirst]
  | true =>
    simp only [if_true, Filter.accepts, Filter.acceptsAny] at hforward hreverse ⊢
    rw [hforward, hreverse]
    cases hfirst : e.firstIs owner b.field.name with
    | false =>
      cases hsecond : e.secondIs owner b.field.name with
      | false => rfl
      | true => simp [opposite_of_secondIs hsecond]
    | true =>
      cases hsecond : e.secondIs owner b.field.name with
      | false => simp [opposite_of_firstIs hfirst]
      | true =>
        -- an edge with the field at both endpoints joins the owner with itself
        simp [← opposite_of_firstIs hfirst, ← opposite_of_secondIs hsecond]

/-- **The filter of an owner's endpoint holds of the edges that have the owner's field there**
    and satisfy the client's part. -/
theorem accepts_endpointFilter (h : Shows ms e) (b : BoundField) (owner : String)
    (client : Option Filter) (fromSecond : Bool) :
    Filter.accepts (b.endpointFilter owner client fromSecond) (.obj ms) =
      ((if fromSecond then e.secondIs owner b.field.name else e.firstIs owner b.field.name) &&
        client.all fun f => (f.stored fromSecond).accepts (.obj ms)) := by
  unfold BoundField.endpointFilter
  cases fromSecond <;> cases client <;>
    simp [Filter.accepts, Filter.acceptsAll, h.accepts_firstId, h.accepts_firstName,
      h.accepts_secondId, h.accepts_secondName, firstIs, secondIs, Bool.and_assoc]

/-- An owner's filter holds of edges at the owner's field only, whatever the client's part. -/
theorem involves_of_accepts_ownerFilter (h : Shows ms e) {b : BoundField} {owner : String}
    {client : Option Filter}
    (haccepts : Filter.accepts (b.ownerFilter owner client) (.obj ms) = true) :
    e.involves owner b.field.name = true := by
  have hendpoint : ∀ fromSecond,
      Filter.accepts (b.endpointFilter owner client fromSecond) (.obj ms) = true →
      e.involves owner b.field.name = true := by
    intro fromSecond hendpoint
    rw [h.accepts_endpointFilter, Bool.and_eq_true] at hendpoint
    unfold involves
    cases fromSecond with
    | true => exact Bool.or_eq_true_iff.2 (.inr hendpoint.1)
    | false => exact Bool.or_eq_true_iff.2 (.inl hendpoint.1)
  unfold BoundField.ownerFilter at haccepts
  split at haccepts
  · simp only [Filter.accepts, Filter.acceptsAny, Bool.or_false, Bool.or_eq_true] at haccepts
    exact haccepts.elim (hendpoint false) (hendpoint true)
  · exact hendpoint false haccepts

end Shows

end Edge

end EdgeFields
