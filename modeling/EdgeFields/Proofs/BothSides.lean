/-
  EdgeFields/Proofs/BothSides.lean
  ================================
  **Both sides of a relationship show the same edges.**

  Two fields are opposite when each names the other one as its reverse (`BoundField.Opposite`).
  Edges are made, moved and removed from either side, but whatever a write through one of the
  fields leaves joins the one with the other: creation names both fields, and an update keeps
  the names of an edge that was found (`Plan.Composed`). In a store all of whose edges do, an
  edge that one of the fields involves is seen from its opposite resource through the other
  field (`Edge.Joins.involves_opposite`).

  The end of it is `BoundField.listedIn_opposite_iff`: whatever calls have been made, and
  whether they succeeded or not, a reference stands in the value of one field just when its
  mirror image stands in the value of the other.
-/
import EdgeFields.Proofs.Operations
import EdgeFields.Proofs.Read
import EdgeFields.Proofs.Rejection

namespace EdgeFields

open EngineM

/-! ### Edges between two fields -/

namespace Edge

variable {e : Edge} {f g owner target : String}

/-- One endpoint is named for the one field and the other endpoint for the other field. -/
def Joins (e : Edge) (f g : String) : Prop :=
  (e.firstName = f ∧ e.secondName = some g) ∨ (e.firstName = g ∧ e.secondName = some f)

theorem Joins.symm (h : e.Joins f g) : e.Joins g f := Or.symm h

-- both equations also hold when the two fields have one name
theorem Joins.secondName_eq (h : e.Joins f g) (hfirst : e.firstName = f) :
    e.secondName = some g := by
  rcases h with ⟨_, hsecond⟩ | ⟨hfirst', hsecond⟩
  · exact hsecond
  · rw [hsecond, ← hfirst, hfirst']

theorem Joins.firstName_eq (h : e.Joins f g) (hsecond : e.secondName = some f) :
    e.firstName = g := by
  rcases h with ⟨hfirst, hsecond'⟩ | ⟨hfirst, _⟩
  · rw [hsecond'] at hsecond
    rw [hfirst, ← Option.some.inj hsecond]
  · exact hfirst

/-- **Seen from its opposite resource an edge leads back to the owner**, through the other
    field. -/
theorem Joins.involves_opposite (h : e.Joins f g) (hinvolves : e.involves owner f = true) :
    e.involves (e.opposite owner f) g = true ∧ e.opposite (e.opposite owner f) g = owner := by
  rcases Bool.or_eq_true_iff.1 hinvolves with hfirst | hsecond
  · have hopposite := opposite_of_firstIs hfirst
    simp only [firstIs, Bool.and_eq_true, beq_iff_eq] at hfirst
    have hthere : e.secondIs e.secondId g = true := by
      simp [secondIs, h.secondName_eq hfirst.2]
    rw [hopposite, opposite_of_secondIs hthere]
    exact ⟨Bool.or_eq_true_iff.2 (.inr hthere), hfirst.1⟩
  · have hopposite := opposite_of_secondIs hsecond
    simp only [secondIs, Bool.and_eq_true, beq_iff_eq] at hsecond
    have hthere : e.firstIs e.firstId g = true := by
      simp [firstIs, h.firstName_eq hsecond.2]
    rw [hopposite, opposite_of_firstIs hthere]
    exact ⟨Bool.or_eq_true_iff.2 (.inl hthere), hsecond.1⟩

@[simp] theorem firstName_retarget (e : Edge) (owner field target : String) :
    (e.retarget owner field target).firstName = e.firstName := by
  unfold retarget
  split <;> rfl

@[simp] theorem secondName_retarget (e : Edge) (owner field target : String) :
    (e.retarget owner field target).secondName = e.secondName := by
  unfold retarget
  split <;> rfl

end Edge

namespace MemoryStore

variable {s t : MemoryStore} {c f g : String}

/-- All edges of a container join two fields. -/
def AllJoin (s : MemoryStore) (c f g : String) : Prop :=
  ∀ path e, s.EdgeAt c path e → e.Joins f g

def WithoutEdges (s : MemoryStore) (c : String) : Prop := ∀ path e, ¬ s.EdgeAt c path e

theorem withoutEdges_of_isEmpty (h : (s.container c).isEmpty = true) : s.WithoutEdges c := by
  intro path e hedge
  obtain ⟨record, hmem, _⟩ := exists_edgeAt_iff.1 ⟨path, hedge⟩
  rw [List.isEmpty_iff.1 h] at hmem
  cases hmem

theorem WithoutEdges.allJoin (h : s.WithoutEdges c) : s.AllJoin c f g :=
  fun path e hedge => absurd hedge (h path e)

theorem AllJoin.symm (h : s.AllJoin c f g) : s.AllJoin c g f :=
  fun path e hedge => (h path e hedge).symm

theorem AllJoin.of_stored (hs : s.AllJoin c f g)
    (h : ∀ path r, Dict.get? t.records path = some r → Dict.get? s.records path = some r ∨
      ∃ e : Edge, r.fields = e.content ∧ e.Joins f g) : t.AllJoin c f g := by
  rintro path e ⟨id, r, hget, hsplit, he⟩
  rcases h path r hget with hold | ⟨e', hcontent, hjoins⟩
  · exact hs path e ⟨id, r, hold, hsplit, he⟩
  · unfold StoredRecord.toRecord at he
    rw [hcontent, Edge.ofRecord_content] at he
    cases he
    exact hjoins

end MemoryStore

/-! ### What writes through a field keep -/

/-- Two fields over the same edges, each of which names the other one as its reverse. -/
structure BoundField.Opposite (b b' : BoundField) : Prop where
  forth : b.field.reverseName = some b'.field.name
  back : b'.field.reverseName = some b.field.name
  container : b.edgeContainer = b'.edgeContainer

namespace BoundField

variable {b b' : BoundField} {s t : MemoryStore}

theorem Opposite.symm (h : b.Opposite b') : b'.Opposite b := ⟨h.back, h.forth, h.container.symm⟩

/-- **A record that a write through one of the fields leaves joins it with the other one**, if
    all edges did before: a new edge gets both names, an old one keeps its own. -/
theorem Opposite.joins_of_leaves (h : b.Opposite b')
    (hs : s.AllJoin b.edgeContainer b.field.name b'.field.name) {stored : StoredRecord}
    (hleaves : b.Leaves s stored) :
    ∃ e : Edge, stored.fields = e.content ∧ e.Joins b.field.name b'.field.name := by
  obtain ⟨owner, es, r, o, _, hfound, hwrite, hleaves⟩ := hleaves
  cases hwrite with
  | create hid htarget =>
    cases hleaves
    exact ⟨_, rfl, .inl ⟨rfl, h.forth⟩⟩
  | @update id target e hid he heid hinvolves htarget =>
    cases hleaves
    obtain ⟨_, path, hedge⟩ := (mem_existingEdges_iff hfound).1 he
    refine ⟨_, rfl, ?_⟩
    unfold updatedEdge Edge.Joins
    simp only [Edge.firstName_retarget, Edge.secondName_retarget]
    exact hs path e hedge

theorem Opposite.allJoin_of_run (h : b.Opposite b')
    (hs : s.AllJoin b.edgeContainer b.field.name b'.field.name) (call : Call) :
    (call.run b s).2.AllJoin b.edgeContainer b.field.name b'.field.name :=
  hs.of_stored fun _ _ hget => (call.leaves_of_run hget).imp_right (h.joins_of_leaves hs)

/-- The stores that calls through two fields lead to, one call after the other and whether
    they succeed or not. -/
inductive Reaches (b b' : BoundField) (s : MemoryStore) : MemoryStore → Prop
  | refl : Reaches b b' s s
  | forth {t : MemoryStore} (h : Reaches b b' s t) (call : Call) :
    Reaches b b' s (call.run b t).2
  | back {t : MemoryStore} (h : Reaches b b' s t) (call : Call) :
    Reaches b b' s (call.run b' t).2

/-- **Calls through either of two opposite fields keep all edges between them.** -/
theorem Opposite.allJoin_of_reaches (h : b.Opposite b')
    (hs : s.AllJoin b.edgeContainer b.field.name b'.field.name) (hreaches : Reaches b b' s t) :
    t.AllJoin b.edgeContainer b.field.name b'.field.name := by
  induction hreaches with
  | refl => exact hs
  | forth _ call ih => exact h.allJoin_of_run ih call
  | back _ call ih =>
    rw [h.container] at ih ⊢
    exact (h.symm.allJoin_of_run ih.symm call).symm

end BoundField

/-! ### What values list -/

namespace Reference

variable {b : BoundField} {rs : List Reference} {es : List Edge} {value : Json}
  {owner id target : String} {properties : Members}

/-- The documents of the references that the value of a field holds. -/
def documents : Json → List Json
  | .null => []
  | .arr xs => xs
  | v => [v]

/-- The value of a field lists a reference of an edge, with a target and properties. -/
def ListedIn (value : Json) (id target : String) (properties : Members) : Prop :=
  ∃ document ∈ documents value, ∃ r, ofJson document = .ok r ∧ r.edgeId? = some id ∧
    r.target = some target ∧ r.edgeProperties = properties

theorem documents_optionToJson (r : Option Reference) :
    documents (optionToJson r) = r.toList.map toJson := by
  cases r <;> rfl

/-- What a document of client forms lists are the edges. -/
theorem listedIn_iff_of_forms (hdocuments : documents value = rs.map toJson)
    (hforms : Forms rs (b.formsOf owner es)) (hids : ∀ e ∈ es, ∃ id, e.id = some id) :
    ListedIn value id target properties ↔
      ∃ e ∈ es, e.id = some id ∧ e.opposite owner b.field.name = target ∧
        Record.withoutBookkeeping e.properties = properties := by
  unfold ListedIn
  rw [hdocuments]
  constructor
  · rintro ⟨document, hdocument, r', hr', hid, htarget, hproperties⟩
    obtain ⟨r, hr, rfl⟩ := List.mem_map.1 hdocument
    obtain ⟨r'', hread, hbare⟩ := ofJson_toJson (hforms.unreserved r hr)
    rw [hr'] at hread
    cases hread
    obtain ⟨form, hform, hbare'⟩ := hforms.exists_form hr
    obtain ⟨e, he, rfl⟩ := List.mem_map.1 hform
    have hsame := hbare.trans hbare'
    obtain ⟨eid, heid⟩ := hids e he
    rw [edgeId?_eq_of_bare hsame, edgeId?_ofEdge heid] at hid
    rw [target_eq_of_bare hsame] at htarget
    rw [edgeProperties_eq_of_bare hsame, edgeProperties_ofEdge] at hproperties
    exact ⟨e, he, heid.trans hid, Option.some.inj htarget, hproperties⟩
  · rintro ⟨e, he, hid, rfl, rfl⟩
    obtain ⟨r, hr, hbare⟩ := hforms.exists_of_form (List.mem_map_of_mem he)
    obtain ⟨r', hread, hbare'⟩ := ofJson_toJson (hforms.unreserved r hr)
    have hsame := hbare'.trans hbare
    refine ⟨r.toJson, List.mem_map_of_mem hr, r', hread, ?_, ?_, ?_⟩
    · rw [edgeId?_eq_of_bare hsame, edgeId?_ofEdge hid]
    · rw [target_eq_of_bare hsame]
      rfl
    · rw [edgeProperties_eq_of_bare hsame, edgeProperties_ofEdge]

end Reference

namespace BoundField

open Reference (ListedIn)

variable {b b' : BoundField} {s t : MemoryStore} {context context' : Context}
  {id id' : String} {value value' : Json}

theorem existing_of_getValue (h : (b.getValue context id).answer s = .ok value) :
    ∃ rs es, Reference.documents value = rs.map Reference.toJson ∧
      (b.existingEdges (b.ownerPath id)).answer s = .ok es ∧
      Reference.Forms rs (b.formsOf (b.ownerPath id) es) := by
  unfold getValue at h
  cases hcardinality : b.field.cardinality with
  | collection =>
    simp only [hcardinality, answer_map] at h
    cases hget : (Collection.get b context id).answer s with
    | error e =>
      rw [hget] at h
      cases h
    | ok rs =>
      rw [hget] at h
      cases h
      obtain ⟨es, hes, hforms⟩ := Collection.existing_of_get hget
      exact ⟨rs, es, rfl, hes, hforms⟩
  | single =>
    simp only [hcardinality, answer_map] at h
    cases hget : (Singleton.get b id).answer s with
    | error e =>
      rw [hget] at h
      cases h
    | ok r =>
      rw [hget] at h
      cases h
      obtain ⟨es, hes, hforms⟩ := Singleton.existing_of_get hget
      exact ⟨r.toList, es, Reference.documents_optionToJson r, hes, hforms⟩

/-- **The value of a field lists the edges that involve it**, whatever its cardinality. -/
theorem listedIn_iff_of_getValue (h : (b.getValue context id).answer s = .ok value)
    (i target : String) (properties : Members) :
    ListedIn value i target properties ↔
      ∃ path e, s.EdgeAt b.edgeContainer path e ∧ e.involves (b.ownerPath id) b.field.name = true ∧
        e.id = some i ∧ e.opposite (b.ownerPath id) b.field.name = target ∧
        Record.withoutBookkeeping e.properties = properties := by
  obtain ⟨rs, es, hdocuments, hes, hforms⟩ := existing_of_getValue h
  rw [Reference.listedIn_iff_of_forms hdocuments hforms (ids_of_found hes)]
  constructor
  · rintro ⟨e, he, hshown⟩
    obtain ⟨hinvolves, path, hedge⟩ := (mem_existingEdges_iff hes).1 he
    exact ⟨path, e, hedge, hinvolves, hshown⟩
  · rintro ⟨path, e, hedge, hinvolves, hshown⟩
    exact ⟨e, (mem_existingEdges_iff hes).2 ⟨hinvolves, path, hedge⟩, hshown⟩

theorem Opposite.listedIn (h : b.Opposite b')
    (hs : s.AllJoin b.edgeContainer b.field.name b'.field.name)
    (hvalue : (b.getValue context id).answer s = .ok value)
    (hvalue' : (b'.getValue context' id').answer s = .ok value') {i : String}
    {properties : Members} (hlisted : ListedIn value i (b'.ownerPath id') properties) :
    ListedIn value' i (b.ownerPath id) properties := by
  obtain ⟨path, e, hedge, hinvolves, hid, htarget, hproperties⟩ :=
    (listedIn_iff_of_getValue hvalue ..).1 hlisted
  obtain ⟨hinvolves', hopposite'⟩ := (hs path e hedge).involves_opposite hinvolves
  rw [htarget] at hinvolves' hopposite'
  rw [h.container] at hedge
  exact (listedIn_iff_of_getValue hvalue' ..).2
    ⟨path, e, hedge, hinvolves', hid, hopposite', hproperties⟩

/-- **Both sides of a relationship show the same edges.** Two fields are each other's reverse,
    and calls through them have led from a store without edges to another store. Then whatever
    the value of the one field lists of a resource of the other, the value of the other field
    lists of the first resource, as the same edge and with the same properties. -/
theorem listedIn_opposite_iff (h : b.Opposite b') (hempty : s.WithoutEdges b.edgeContainer)
    (hreaches : Reaches b b' s t) (hvalue : (b.getValue context id).answer t = .ok value)
    (hvalue' : (b'.getValue context' id').answer t = .ok value') (i : String)
    (properties : Members) :
    ListedIn value i (b'.ownerPath id') properties ↔
      ListedIn value' i (b.ownerPath id) properties := by
  have hjoins := h.allJoin_of_reaches hempty.allJoin hreaches
  constructor
  · exact h.listedIn hjoins hvalue hvalue'
  · rw [h.container] at hjoins
    exact h.symm.listedIn hjoins.symm hvalue' hvalue

end BoundField

/-! ### A role that changes hands -/

namespace Sample

/-- Two users and a role. -/
def twoUsers : MemoryStore := seeds.put (Path.join "managed/user" "2") []

theorem withoutEdges_twoUsers : twoUsers.WithoutEdges roles.edgeContainer :=
  MemoryStore.withoutEdges_of_isEmpty (by decide +kernel)

theorem opposite_roles_members : roles.Opposite members := ⟨rfl, rfl, rfl⟩

/-- The role is given to the first user. -/
def give : BoundField.Call := .set true "1" (.arr [.obj [("_ref", .str "managed/role/1")]])

/-- From the role's side its edge is handed to the second user, with a property. -/
def handOver : BoundField.Call :=
  .set true "1" (.arr [.obj [
    ("_id", .str (Ids.assigned 0)),
    ("_ref", .str "managed/user/2"),
    ("_refProperties", .obj [("grant", .str "direct")])]])

def handedOver : MemoryStore := (handOver.run members (give.run roles twoUsers).2).2

theorem reaches_handedOver : BoundField.Reaches roles members twoUsers handedOver := by
  rw [handedOver]
  exact .back (.forth .refl give) handOver

end Sample

/-- The second user lists the role, as the role lists the second user. -/
theorem BoundField.listedIn_opposite_iff_handedOver :
    ∃ value value',
      (Sample.roles.getValue (.fresh 0) "2").answer Sample.handedOver = .ok value ∧
      (Sample.members.getValue (.fresh 0) "1").answer Sample.handedOver = .ok value' ∧
      (Reference.documents value).length = 1 ∧
      ∀ i properties,
        Reference.ListedIn value i (Sample.members.ownerPath "1") properties ↔
          Reference.ListedIn value' i (Sample.roles.ownerPath "2") properties := by
  have hreads : (((Sample.roles.getValue (.fresh 0) "2").answer
      Sample.handedOver).toOption.map (fun value => (Reference.documents value).length),
      ((Sample.members.getValue (.fresh 0) "1").answer Sample.handedOver).isOk) =
        (some 1, true) := by
    decide +kernel
  rw [Prod.mk.injEq] at hreads
  obtain ⟨hlength, hread⟩ := hreads
  obtain ⟨value', hvalue'⟩ := Result.eq_ok_of_isOk hread
  rcases hvalue : (Sample.roles.getValue (.fresh 0) "2").answer Sample.handedOver with e | value
  · rw [hvalue] at hlength
    cases hlength
  · rw [hvalue] at hlength
    exact ⟨value, value', rfl, hvalue', Option.some.inj hlength,
      listedIn_opposite_iff Sample.opposite_roles_members Sample.withoutEdges_twoUsers
        Sample.reaches_handedOver hvalue hvalue'⟩

end EdgeFields
