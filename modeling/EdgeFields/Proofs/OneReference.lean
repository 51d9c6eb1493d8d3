/-
  EdgeFields/Proofs/OneReference.lean
  ===================================
  **Singleton fields are collections of one reference.**

  The two cardinalities have engines of their own. They check in different order, look for the
  edge that a reference names from different ends of the list, and partition the edges to
  remove differently. Written as plans the two are the same (`Singleton.answer_plan_some`), but
  for one case: a reference that names an edge leaves the other edges of a singleton alone, and
  has those of a collection removed. Where the owner has at most one edge
  (`MemoryStore.AtMostOne`) there are none.
-/
import EdgeFields.Proofs.Operations
import Mathlib.Data.Finset.Card

namespace EdgeFields

open EngineM

/-! ### Owners with at most one edge -/

namespace MemoryStore

variable {s : MemoryStore} {c owner field : String}

/-- No two edges of a container involve the field of an owner. -/
def AtMostOne (s : MemoryStore) (c owner field : String) : Prop :=
  ∀ path path' e e', s.EdgeAt c path e → s.EdgeAt c path' e' →
    e.involves owner field = true → e'.involves owner field = true → path = path'

/-- The records of the edges at a field, with their paths. -/
def relatedPaths (s : MemoryStore) (c owner field : String) : List (String × Record) :=
  (s.listed c).filter fun q => Filter.accepts (relationshipFilter owner field) q.2.content

theorem related_eq_map (s : MemoryStore) (c owner field : String) :
    s.related c owner field = (s.relatedPaths c owner field).map (·.2) := by
  unfold related relatedPaths
  rw [container_eq_map_listed, List.filter_map]
  rfl

theorem nodup_relatedPaths (s : MemoryStore) (c owner field : String) :
    ((s.relatedPaths c owner field).map (·.1)).Nodup :=
  (nodup_listed s c).sublist (List.filter_sublist.map _)

/-- At most one edge is found at a field just when there is at most one. -/
theorem length_le_one_iff {es : List Edge}
    (h : (s.related c owner field).mapM Edge.ofRecord = .ok es) :
    es.length ≤ 1 ↔ s.AtMostOne c owner field := by
  obtain ⟨edge, rfl, hedge⟩ := Result.map_of_mapM_eq_ok h
  have hpath : ∀ path, path ∈ (s.relatedPaths c owner field).map (·.1) ↔
      ∃ e, s.EdgeAt c path e ∧ e.involves owner field = true := by
    intro path
    rw [List.mem_map]
    constructor
    · rintro ⟨⟨path, record⟩, hmem, rfl⟩
      have hrecord : record ∈ s.related c owner field := by
        rw [related_eq_map]
        exact List.mem_map_of_mem hmem
      have he := hedge record hrecord
      exact ⟨_, edgeAt_iff.2 ⟨record, (List.mem_filter.1 hmem).1, he⟩,
        ((mem_related_iff he).1 hrecord).2⟩
    · rintro ⟨e, hat, hinvolves⟩
      obtain ⟨record, hlisted, he⟩ := edgeAt_iff.1 hat
      have hcontainer : record ∈ s.container c := by
        rw [container_eq_map_listed]
        exact List.mem_map_of_mem hlisted
      obtain ⟨ms, hms, hshows⟩ := shows_of_mem_container hcontainer he
      refine ⟨(path, record), List.mem_filter.2 ⟨hlisted, ?_⟩, rfl⟩
      rw [hms, hshows.accepts_relationshipFilter]
      exact hinvolves
  rw [List.length_map, related_eq_map, List.length_map, ← List.length_map (·.1),
    ← List.toFinset_card_of_nodup (nodup_relatedPaths s c owner field), Finset.card_le_one]
  simp only [List.mem_toFinset, hpath]
  constructor
  · intro hone path path' e e' hat hat' hinvolves hinvolves'
    exact hone path ⟨e, hat, hinvolves⟩ path' ⟨e', hat', hinvolves'⟩
  · rintro hone path ⟨e, hat, hinvolves⟩ path' ⟨e', hat', hinvolves'⟩
    exact hone path path' e e' hat hat' hinvolves hinvolves'

end MemoryStore

/-! ### Plans of one reference -/

/-- References that name no edge have all edges of a collection removed. -/
theorem Collection.removed_eq_self {es : List Edge} {value : List Reference}
    (hids : ∀ e ∈ es, ∃ id, e.id = some id) (hvalue : ∀ r ∈ value, r.edgeId? = none) :
    removed true es value = es := by
  have hnamed : value.filterMap Reference.edgeId? = [] := List.filterMap_eq_nil_iff.2 hvalue
  simp only [removed, if_true, unnamed, hnamed, List.filter_eq_self]
  intro e he
  obtain ⟨i, hi⟩ := hids e he
  simp [hi]

namespace Singleton

variable {b : BoundField} {replacing : Bool} {id owner target : String} {r : Reference}
  {s : MemoryStore} {es : List Edge}

/-- A reference that names the only edge has no edge of a collection removed. -/
theorem removed_of_find? {i : String} {e : Edge} (hlength : es.length ≤ 1)
    (hid : r.edgeId? = some i) (hfind : (es.find? fun e => e.id == some i) = some e) :
    Collection.removed true es [r] = [] := by
  have hmem := List.mem_of_find?_eq_some hfind
  have heid : e.id = some i := by simpa using List.find?_some hfind
  obtain ⟨e', rfl⟩ := List.length_eq_one_iff.1
    (Nat.le_antisymm hlength (List.length_pos_of_mem hmem))
  rw [← List.mem_singleton.1 hmem]
  simp [Collection.removed, Collection.unnamed, hid, heid]

/-- **The plan of one reference is the same in both engines**, unless it leaves edges alone. -/
theorem collection_eq_planOf (hids : ∀ e ∈ es, ∃ id, e.id = some id)
    (hone : r.edgeId? = none ∨ es.length ≤ 1) (htarget : r.target = some target) :
    (do
      let writes ← [r].mapM (Collection.writeOf b owner es)
      let removals ← (Collection.removed true es [r]).mapM BoundField.deleteOperation
      .ok ⟨removals, Collection.ordered writes⟩) = planOf b owner es r := by
  have hsingle : [r].mapM (Collection.writeOf b owner es) =
      (do let o ← Collection.writeOf b owner es r; .ok [o]) := by
    rw [Result.mapM_cons]
    rfl
  rw [hsingle, bind_assoc]
  unfold planOf Collection.writeOf
  cases hid : r.edgeId? with
  | none =>
    have hcreate : b.createOperation owner r = .ok (.create (b.createdEdge owner target r)) :=
      BoundField.createOperation_eq_ok.2 ⟨target, htarget, rfl⟩
    have hall := Collection.removed_eq_self hids (List.forall_mem_singleton.2 hid)
    simp only [hcreate, Result.ok_bind, hall]
    rfl
  | some i =>
    have hlength : es.length ≤ 1 := hone.resolve_left (by simp [hid])
    have hreverse : es.reverse = es := by
      rcases es with _ | ⟨e, _ | ⟨e', es⟩⟩
      · rfl
      · rfl
      · simp at hlength
    simp only [Collection.edgeWithId?, hreverse]
    cases hfind : es.find? fun e => e.id == some i with
    | none => rfl
    | some e =>
      simp only [removed_of_find? hlength hid hfind]
      cases hupdate : b.updateOperation owner e r with
      | error e' => rfl
      | ok o =>
        obtain ⟨_, _, _, _, _, rfl⟩ := BoundField.updateOperation_eq_ok.1 hupdate
        rfl

theorem answer_plan_some (b : BoundField) (replacing : Bool) (id : String) (r : Reference)
    (s : MemoryStore) :
    (plan b replacing id (some r)).answer s = (do
      b.checkShape r
      (BoundField.checkOwner (b.ownerPath id)).answer s
      let existing ← (b.existingEdges (b.ownerPath id)).answer s
      (b.validateNew (b.ownerPath id) false (b.formsOf (b.ownerPath id) existing) [r]).answer s
      planOf b (b.ownerPath id) existing r) := by
  simp only [plan, (readOnly_ofResult _).answer_bind,
    (BoundField.readOnly_checkOwner _).answer_bind,
    (BoundField.readOnly_existingEdges b _).answer_bind,
    (BoundField.readOnly_validateNew b _ _ _ _).answer_bind, answer_ofResult]

/-- **A singleton plans a reference as a collection does** that replaces its value by that
    reference. -/
theorem answer_plan_eq (h : r.edgeId? = none ∨
      s.AtMostOne b.edgeContainer (b.ownerPath id) b.field.name) :
    (Collection.plan b true id [r]).answer s = (plan b replacing id (some r)).answer s := by
  have hshapes : [r].forM b.checkShape = b.checkShape r := by
    rw [Result.forM_cons]
    cases b.checkShape r <;> rfl
  rw [Collection.answer_plan (List.cons_ne_nil r []), answer_plan_some, hshapes]
  have hdistinct : Reference.checkDistinct [r] = .ok () :=
    Reference.checkDistinct_eq_ok.2 (List.pairwise_singleton _ _)
  rw [hdistinct, Result.ok_bind]
  refine Result.bind_congr fun _ hshape => Result.bind_congr fun _ _ =>
    Result.bind_congr fun es hfound => Result.bind_congr fun _ _ => ?_
  obtain ⟨target, htarget⟩ := BoundField.checkShape_target hshape
  have hone : r.edgeId? = none ∨ es.length ≤ 1 :=
    h.imp_right (MemoryStore.length_le_one_iff
      ((BoundField.answer_existingEdges_eq_ok b _ s es).1 hfound)).2
  exact collection_eq_planOf (BoundField.ids_of_found hfound) hone htarget

/-- The plan of a reference has one write. -/
theorem exists_write_of_answer_plan {p : Plan}
    (h : (plan b replacing id (some r)).answer s = .ok p) : ∃ o, p.writes = [o] := by
  obtain ⟨es, _, hplan⟩ := exists_planOf h
  obtain ⟨_, o, _, _, hwrites, _⟩ := planOf_cases hplan
  exact ⟨o, hwrites⟩

end Singleton

/-! ### Writes of one reference -/

/-- A batch of one operation answers one record or fails. -/
theorem Batch.execute_singleton (c : String) (width : Nat) (o : Operation) (s : MemoryStore) :
    ∃ (x : Except Batch.Error Record) (t : MemoryStore),
      execute c width none [o] s = (x.map fun record => [record], t) := by
  rw [execute_eq]
  rcases hrun : o.run c s with ⟨e | record, t⟩
  · refine ⟨.error (.operationFailed 0 o.kind e), t, ?_⟩
    simp only [runFrom, bind, StateT.bind, ExceptT.run, hrun]
    rfl
  · refine ⟨.ok record, t, ?_⟩
    simp only [runFrom, bind, StateT.bind, ExceptT.run, hrun]
    rfl

theorem BoundField.execute_singleton (b : BoundField) (owner : String) (o : Operation)
    (s : MemoryStore) :
    ∃ (x : Except Error Reference) (t : MemoryStore),
      b.execute owner [o] s = (x.map fun w => [w], t) := by
  rw [execute_apply (List.cons_ne_nil o [])]
  obtain ⟨x, t, hrun⟩ :=
    Batch.execute_singleton b.edgeContainer b.settings.maxConcurrentOperations o s
  rw [hrun]
  cases x with
  | error e => exact ⟨.error (.ofBatch e), t, rfl⟩
  | ok record =>
    refine ⟨b.toReference owner record, t, ?_⟩
    show ([record].mapM (b.toReference owner), t) = _
    rw [Result.mapM_cons]
    rfl

theorem Plan.perform_singleton (b : BoundField) (owner : String) (s : MemoryStore) {p : Plan}
    {o : Operation} (h : p.writes = [o]) :
    ∃ (x : Except Error Reference) (t : MemoryStore),
      p.perform b owner s = (x.map fun w => [w], t) := by
  unfold perform
  rw [bind_apply, h]
  rcases b.execute owner p.removals s with ⟨e | removed, t⟩
  · exact ⟨.error e, t, rfl⟩
  · exact b.execute_singleton owner o t

namespace Singleton

variable {b : BoundField} {replacing : Bool} {id : String} {s : MemoryStore}

theorem set_some_eq {r : Reference} (h : r.edgeId? = none ∨
    s.AtMostOne b.edgeContainer (b.ownerPath id) b.field.name) (replacing : Bool) :
    ∃ (x : Except Error Reference) (t : MemoryStore),
      set b replacing id (some r) s = (x.map some, t) ∧
      Collection.set b true id [r] s = (x.map fun w => [w], t) := by
  rw [set_eq_plan, Collection.set_eq_plan, (readOnly_plan b replacing id _).bind_apply,
    (Collection.readOnly_plan b true id _).bind_apply, answer_plan_eq h]
  cases hplan : (plan b replacing id (some r)).answer s with
  | error e => exact ⟨.error e, s, rfl, rfl⟩
  | ok p =>
    obtain ⟨o, ho⟩ := exists_write_of_answer_plan hplan
    obtain ⟨x, t, hperform⟩ := Plan.perform_singleton b (b.ownerPath id) s ho
    refine ⟨x, t, ?_, hperform⟩
    dsimp only
    rw [bind_apply, hperform]
    cases x <;> rfl

theorem set_none_eq (b : BoundField) (replacing : Bool) (id : String) (s : MemoryStore) :
    ∃ (x : Except Error Unit) (t : MemoryStore),
      set b replacing id none s = (x.map fun _ => none, t) ∧
      Collection.set b replacing id [] s = (x.map fun _ => [], t) := by
  cases replacing with
  | false => exact ⟨.ok (), s, rfl, rfl⟩
  | true =>
    have hset : (set b true id none : EngineM MemoryStore (Option Reference)) =
        (do let _ ← clearOwner b (b.ownerPath id); pure none) := rfl
    have hcollection : (Collection.set b true id [] : EngineM MemoryStore (List Reference)) =
        (do let _ ← Collection.clearOwner b (b.ownerPath id); pure []) := rfl
    rw [hset, hcollection, clearOwner_eq_map, bind_apply, bind_apply, map_apply]
    rcases Collection.clearOwner b (b.ownerPath id) s with ⟨e | removed, t⟩
    · exact ⟨.error e, t, rfl, rfl⟩
    · exact ⟨.ok (), t, rfl, rfl⟩

/-- **A singleton field is written as a collection of one reference.** A reference has the same
    effect and the same outcome as the value of that reference alone that replaces whatever
    a collection has; only a reference that names an edge needs that the owner has no other
    one. No reference has the same effect and the same outcome as no value. -/
theorem set_eq_collection_set (b : BoundField) (replacing : Bool) (id : String)
    (s : MemoryStore) :
    (∀ r : Reference, (r.edgeId? = none ∨
        s.AtMostOne b.edgeContainer (b.ownerPath id) b.field.name) →
      ∃ (x : Except Error Reference) (t : MemoryStore),
        set b replacing id (some r) s = (x.map some, t) ∧
        Collection.set b true id [r] s = (x.map fun w => [w], t)) ∧
    ∃ (x : Except Error Unit) (t : MemoryStore),
      set b replacing id none s = (x.map fun _ => none, t) ∧
      Collection.set b replacing id [] s = (x.map fun _ => [], t) := by
  constructor
  · intro r h
    exact set_some_eq h replacing
  · exact set_none_eq b replacing id s

end Singleton

/-! ### A user and his manager -/

namespace Sample

/-- The manager of a user, who has the user among his reports. -/
def manager : BoundField where
  container := "managed/user"
  field := { name := "manager", reverseName := some "reports" }
  settings := {}

/-- The third user has the first one as his manager. -/
def employment : Edge where
  firstId := "managed/user/3"
  firstName := "manager"
  secondId := "managed/user/1"
  secondName := some "reports"
  properties := []

def staff : MemoryStore :=
  ((MemoryStore.empty.put (Path.join "managed/user" "1") []).put
    (Path.join "managed/user" "2") []).put (Path.join "managed/user" "3") []

def employed : MemoryStore := staff.put (Path.join "repo/relationships" "e1") employment.content

/-- The third user gets the second one as his manager, by the edge that he has. -/
def newManager : Reference := { id := some "e1", target := some "managed/user/2" }

theorem atMostOne_employed :
    employed.AtMostOne manager.edgeContainer (manager.ownerPath "3") manager.field.name := by
  have hfound : ((manager.existingEdges (manager.ownerPath "3")).answer employed).toOption.map
      List.length = some 1 := by
    decide +kernel
  cases hes : (manager.existingEdges (manager.ownerPath "3")).answer employed with
  | error e =>
    rw [hes] at hfound
    cases hfound
  | ok es =>
    rw [hes] at hfound
    rw [BoundField.answer_existingEdges_eq_ok] at hes
    exact (MemoryStore.length_le_one_iff hes).1 (Nat.le_of_eq (Option.some.inj hfound))

end Sample

theorem Singleton.set_eq_collection_set_newManager :
    ∃ (w : Reference) (t : MemoryStore),
      set Sample.manager false "3" (some Sample.newManager) Sample.employed = (.ok (some w), t) ∧
      Collection.set Sample.manager true "3" [Sample.newManager] Sample.employed =
        (.ok [w], t) := by
  have hok : (set Sample.manager false "3" (some Sample.newManager) Sample.employed).1.isOk =
      true := by
    decide +kernel
  obtain ⟨x, t, hset, hcollection⟩ := (set_eq_collection_set Sample.manager false "3"
    Sample.employed).1 Sample.newManager (.inr Sample.atMostOne_employed)
  rw [hset] at hok
  cases x with
  | error e => cases hok
  | ok w => exact ⟨w, t, hset, hcollection⟩

end EdgeFields
