/-
  EdgeFields/Proofs/Reference.lean
  ================================
  **References as client forms and as documents.**

  The client form of an edge names the edge and carries its properties under bookkeeping
  that is taken off again. A reference read back from its own document is the same but for
  the members of the referenced resource (`Reference.ofJson_toJson`), which no write looks
  at: `Reference.bare` leaves them out.
-/
import EdgeFields.Proofs.Engine
import EdgeFields.Proofs.Edge

namespace EdgeFields

/-! ### Bookkeeping among properties -/

namespace Dict

theorem erase_insert? {α : Type} (key : String) (value : Option α) (d : Dict α) :
    erase key (insert? key value d) = erase key d := by
  cases value with
  | none => rfl
  | some v => exact erase_insert key v d

theorem get?_merge_of_forall_ne {α : Type} {key : String} (d : Dict α) {d' : Dict α}
    (h : ∀ e ∈ d', e.1 ≠ key) : get? (merge d d') key = get? d key := by
  unfold merge
  induction d' generalizing d with
  | nil => rfl
  | cons e d' ih =>
    rw [List.forall_mem_cons] at h
    rw [List.foldl_cons, ih _ h.2, get?_insert_of_ne h.1]

end Dict

namespace Record

theorem withoutBookkeeping_insert? (id revision : Option Json) (ms : Members) :
    withoutBookkeeping (Dict.insert? revisionKey revision (Dict.insert? idKey id ms)) =
      withoutBookkeeping ms := by
  unfold withoutBookkeeping
  rw [Dict.erase_comm, Dict.erase_insert?, Dict.erase_comm, Dict.erase_insert?]

/-- Members without an identifier and a revision among them. -/
structure Plain (ms : Members) : Prop where
  id : Dict.get? ms idKey = none
  revision : Dict.get? ms revisionKey = none

theorem plain_withoutBookkeeping (ms : Members) : Plain (withoutBookkeeping ms) := by
  unfold withoutBookkeeping
  refine ⟨?_, Dict.get?_erase_self _ _⟩
  rw [Dict.get?_erase_of_ne (by decide), Dict.get?_erase_self]

theorem Plain.withoutBookkeeping_eq {ms : Members} (h : Plain ms) : withoutBookkeeping ms = ms :=
  withoutBookkeeping_eq_self h.id h.revision

end Record

namespace Reference

instance : Nonempty Reference := ⟨{}⟩

variable {r : Reference} {e e' : Edge} {owner field : String}

/-! ### Client forms -/

theorem edgeId?_ofEdge {id : String} (h : e.id = some id) :
    (ofEdge e owner field).edgeId? = some id := by
  simp [edgeId?, ofEdge, h]

theorem edgeProperties_ofEdge (e : Edge) (owner field : String) :
    (ofEdge e owner field).edgeProperties = Record.withoutBookkeeping e.properties :=
  Record.withoutBookkeeping_insert? _ _ _

theorem get?_properties_ofEdge {name : String} (hid : name ≠ Record.idKey)
    (hrevision : name ≠ Record.revisionKey) :
    Dict.get? (ofEdge e owner field).properties name = Dict.get? e.properties name := by
  show Dict.get? (Dict.insert? Record.revisionKey _ (Dict.insert? Record.idKey _ _)) name = _
  rw [Dict.get?_insert?, if_neg (Ne.symm hrevision), Dict.get?_insert?, if_neg (Ne.symm hid)]

theorem plain_edgeProperties (r : Reference) : Record.Plain r.edgeProperties :=
  Record.plain_withoutBookkeeping _

/-! ### Distinct references -/

theorem firstRepeated?_eq_none {seen : List Identity} {rs : List Reference} :
    firstRepeated? seen rs = none ↔
      (∀ r ∈ rs, r.identity ∉ seen) ∧ (rs.map identity).Pairwise (· ≠ ·) := by
  induction rs generalizing seen with
  | nil => simp [firstRepeated?]
  | cons r rs ih =>
    unfold firstRepeated?
    by_cases hmem : r.identity ∈ seen
    · simp [hmem]
    · simp only [List.contains_eq_mem, decide_eq_true_eq, if_neg hmem, ih]
      simp only [List.mem_cons, not_or, List.map_cons, List.pairwise_cons, List.mem_map,
        forall_eq_or_imp, forall_exists_index, and_imp, forall_apply_eq_imp_iff₂]
      constructor
      · rintro ⟨hrs, hdistinct⟩
        exact ⟨⟨hmem, fun r' hr' => (hrs r' hr').2⟩, fun r' hr' => Ne.symm (hrs r' hr').1,
          hdistinct⟩
      · rintro ⟨⟨_, hseen⟩, hne, hdistinct⟩
        exact ⟨fun r' hr' => ⟨Ne.symm (hne r' hr'), hseen r' hr'⟩, hdistinct⟩

/-- References pass the check when their identities differ from each other. -/
theorem checkDistinct_eq_ok {rs : List Reference} :
    checkDistinct rs = .ok () ↔ (rs.map identity).Pairwise (· ≠ ·) := by
  have hnone : firstRepeated? [] rs = none ↔ (rs.map identity).Pairwise (· ≠ ·) := by
    rw [firstRepeated?_eq_none]
    simp
  rw [← hnone]
  unfold checkDistinct
  cases firstRepeated? [] rs <;> simp

/-! ### Documents -/

/-- A reference without the members of the referenced resource. -/
def bare (r : Reference) : Reference := { r with expanded := [] }

/-- The members of the referenced resource do not pass for the reference's own. -/
def Unreserved (r : Reference) : Prop := ∀ key ∈ reserved, Dict.get? r.expanded key = none

theorem unreserved_ofEdge (e : Edge) (owner field : String) : Unreserved (ofEdge e owner field) :=
  fun _ _ => rfl

theorem bare_expand (r : Reference) (referent : Json) : (r.expand referent).bare = r.bare := by
  cases referent <;> rfl

theorem Unreserved.expand (h : Unreserved r) (referent : Json) :
    Unreserved (r.expand referent) := by
  unfold Reference.expand
  split
  · intro key hkey
    show Dict.get? (Dict.merge r.expanded _) key = none
    rw [Dict.get?_merge_of_forall_ne]
    · exact h key hkey
    · intro m hm heq
      have hfree := (List.mem_filter.1 hm).2
      rw [heq] at hfree
      simp [hkey] at hfree
  · exact h

private theorem optional_of_get? {ms : Members} {key : String} {value : Option String}
    (h : Dict.get? ms key = value.map .str) : Json.optional Json.asStr? ms key = some value := by
  unfold Json.optional
  rw [h]
  cases value <;> rfl

/-- The members of a document show a reference: its own are found there. -/
structure Shows (ms : Members) (r : Reference) : Prop where
  id : Dict.get? ms Record.idKey = r.id.map .str
  revision : Dict.get? ms Record.revisionKey = r.revision.map .str
  target : Dict.get? ms targetKey = r.target.map .str
  properties : Dict.get? ms propertiesKey = some (.obj r.properties)

theorem Shows.of_bare {ms : Members} {r' : Reference} (h : Shows ms r)
    (hbare : r.bare = r'.bare) : Shows ms r' := by
  simp only [bare, mk.injEq] at hbare
  obtain ⟨hid, hrevision, htarget, hproperties, _⟩ := hbare
  constructor
  · rw [h.id, hid]
  · rw [h.revision, hrevision]
  · rw [h.target, htarget]
  · rw [h.properties, hproperties]

theorem Unreserved.shows (h : Unreserved r) : ∃ ms, r.toJson = .obj ms ∧ Shows ms r := by
  refine ⟨_, rfl, ?_, ?_, ?_, ?_⟩
  · rw [Dict.get?_insert?, if_pos rfl, Dict.get?_insert?, if_neg (by decide), Dict.get?_insert?,
      if_neg (by decide), Dict.get?_insert_of_ne (by decide), h _ (by decide), Option.or_none]
  · rw [Dict.get?_insert?, if_neg (by decide), Dict.get?_insert?, if_pos rfl, Dict.get?_insert?,
      if_neg (by decide), Dict.get?_insert_of_ne (by decide), h _ (by decide), Option.or_none]
  · rw [Dict.get?_insert?, if_neg (by decide), Dict.get?_insert?, if_neg (by decide),
      Dict.get?_insert?, if_pos rfl, Dict.get?_insert_of_ne (by decide), h _ (by decide),
      Option.or_none]
  · rw [Dict.get?_insert?, if_neg (by decide), Dict.get?_insert?, if_neg (by decide),
      Dict.get?_insert?, if_neg (by decide), Dict.get?_insert_self]

theorem Shows.ofMembers?_eq {ms : Members} (h : Shows ms r) :
    ofMembers? ms = some { r with expanded := ms.filter fun m => !reserved.contains m.1 } := by
  have hproperties : Json.defaulted [] Json.asObj? ms propertiesKey = some r.properties := by
    unfold Json.defaulted
    rw [h.properties]
    rfl
  unfold ofMembers?
  rw [optional_of_get? h.id, optional_of_get? h.revision, optional_of_get? h.target, hproperties]
  rfl

/-- **A reference is read back from its document**, but for the members of the referenced
    resource. -/
theorem ofJson_toJson (h : Unreserved r) : ∃ r', ofJson r.toJson = .ok r' ∧ r'.bare = r.bare := by
  obtain ⟨ms, hdocument, hshows⟩ := h.shows
  refine ⟨{ r with expanded := ms.filter fun m => !reserved.contains m.1 }, ?_, rfl⟩
  rw [hdocument]
  unfold ofJson
  simp only [hshows.ofMembers?_eq]

/-- The references of a collection are read back from their document. -/
theorem listOfJson_listToJson {rs : List Reference} (h : ∀ r ∈ rs, Unreserved r) :
    ∃ rs', listOfJson (listToJson rs) = .ok rs' ∧ rs'.map bare = rs.map bare := by
  unfold listOfJson listToJson
  induction rs with
  | nil => exact ⟨[], rfl, rfl⟩
  | cons r rs ih =>
    rw [List.forall_mem_cons] at h
    obtain ⟨r', hr', hbare⟩ := ofJson_toJson h.1
    obtain ⟨rs', hrs', hbares⟩ := ih h.2
    refine ⟨r' :: rs', ?_, by simp [hbare, hbares]⟩
    simp only at hrs' ⊢
    rw [List.map_cons, Result.mapM_cons, hr', hrs']
    rfl

end Reference

end EdgeFields
