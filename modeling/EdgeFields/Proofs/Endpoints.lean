/-
  EdgeFields/Proofs/Endpoints.lean
  ================================
  **No edge is left dangling.**

  Nothing is checked again when an edge is written for a reference that the field holds
  already: only the owner and the resources of unknown references are looked up. Still every
  edge has resources at both ends (`BoundField.Run.endpoints_readable`). A known reference
  leads to the opposite resource of an edge that was found, and that edge has both its
  endpoints; and whatever a call does, it does to paths in the container of the edges
  (`BoundField.Call.read_run`), where no endpoint lies.
-/
import EdgeFields.Proofs.BothSides
import EdgeFields.Proofs.Steps
import EdgeFields.Proofs.Written

namespace EdgeFields

open EngineM

/-! ### Paths in a container -/

namespace Path

variable {c c' id path : String}

/-- A path of an identifier in a container, as the store makes it or as the engine addresses
    it. -/
def LiesIn (c path : String) : Prop :=
  ∃ id, IsId id ∧ (trim path = join (trim c) id ∨ trim path = trim (join c id))

theorem not_liesIn_join (hc : IsContainer c) (hc' : IsContainer c') (hid : IsId id)
    (hne : c ≠ c') : ¬LiesIn c (join c' id) := by
  rintro ⟨id', hid', h⟩
  rw [hc'.trim_join hid, hc'.trim_eq, hc.trim_join hid', hc.trim_eq, or_self] at h
  exact hne ((join_inj hc' hc hid hid').1 h).1.symm

end Path

/-! ### What a call leaves alone -/

/-- An operation changes paths in the container only, one of an identifier. -/
theorem Operation.get?_run_of_not_liesIn {o : Operation} {c path : String} {s : MemoryStore}
    (hid : ∀ serial, Path.IsId (o.place serial)) (hpath : ¬Path.LiesIn c path) :
    Dict.get? (o.run c s).2.records (Path.trim path) = Dict.get? s.records (Path.trim path) := by
  have hmade : ∀ serial, Path.join (Path.trim c) (o.place serial) ≠ Path.trim path :=
    fun serial heq => hpath ⟨_, hid serial, .inl heq.symm⟩
  have haddressed : ∀ serial, Path.trim (Path.join c (o.place serial)) ≠ Path.trim path :=
    fun serial heq => hpath ⟨_, hid serial, .inr heq.symm⟩
  rcases hrun : o.run c s with ⟨x, t⟩
  cases o with
  | create e =>
    rw [run_create] at hrun
    rcases MemoryStore.writing_cases hrun with ⟨_, _, hcreate⟩ | ⟨_, _, rfl⟩
    · obtain ⟨_, rfl⟩ := MemoryStore.create_eq_ok_cases hcreate
      exact (MemoryStore.get?_put ..).trans (if_neg (hmade s.serials))
    · rfl
  | update id expected e =>
    rw [run_update] at hrun
    rcases MemoryStore.writing_cases hrun with ⟨_, _, hupdate⟩ | ⟨_, _, rfl⟩
    · obtain ⟨_, rfl⟩ := MemoryStore.update_eq_ok_cases hupdate
      exact (MemoryStore.get?_put ..).trans (if_neg (haddressed 0))
    · rfl
  | delete id expected =>
    rw [run_delete] at hrun
    rcases MemoryStore.writing_cases hrun with ⟨_, _, hdelete⟩ | ⟨_, _, rfl⟩
    · rw [MemoryStore.delete_eq_ok_cases hdelete]
      exact (MemoryStore.get?_remove ..).trans (if_neg (haddressed 0))
    · rfl

theorem MemoryStore.read_eq_of_get? {s t : MemoryStore} {path : String}
    (h : Dict.get? t.records (Path.trim path) = Dict.get? s.records (Path.trim path)) :
    t.read path = s.read path := by
  unfold read find
  rw [h]

namespace BoundField

variable {b : BoundField} {call : Call} {owner path c : String} {replacing : Bool}
  {value : List Reference} {s t : MemoryStore} {p : Plan}

/-- What a settled plan addresses are identifiers. -/
theorem Settled.isId_place (h : b.Settled owner replacing value s p) :
    ∀ o ∈ p.operations, ∀ serial, Path.IsId (o.place serial) := by
  intro o ho serial
  cases h with
  | idle _ _ hplan =>
    rw [hplan] at ho
    cases ho
  | @found es g hfound _ _ _ hremovals hwrites hg =>
    rcases List.mem_append.1 ho with hremoval | hwrite
    · rw [hremovals] at hremoval
      obtain ⟨e, he, rfl⟩ := List.mem_map.1 hremoval
      obtain ⟨i, hi, hisId⟩ := exists_id_of_mem hfound
        ((Collection.removed_sublist replacing es value).subset he)
      rw [removalOf_eq hi]
      exact hisId
    · rw [hwrites, Collection.mem_ordered] at hwrite
      obtain ⟨r, hr, rfl⟩ := List.mem_map.1 hwrite
      exact (Collection.writes_of_writeFrom hfound (hg r hr)).authored.isId serial

theorem Call.state_cases (b : BoundField) (call : Call) (s : MemoryStore) :
    (call.run b s).2 = s ∨ ∃ replacing value p, call.Performs b replacing value s p ∧
      (call.run b s).2 = (p.perform b (b.ownerPath call.id) s).2 := by
  rcases call.run_cases b s with hrefused | ⟨replacing, value, p, h⟩
  · exact .inl (congrArg Prod.snd hrefused)
  · exact .inr ⟨replacing, value, p, h, congrArg Prod.snd h.ends⟩

/-- **A call changes nothing outside the container of the edges.** -/
theorem Call.read_run (call : Call) (hpath : ¬Path.LiesIn b.edgeContainer path) :
    (call.run b s).2.read path = s.read path := by
  rcases call.state_cases b s with hsame | ⟨replacing, value, p, hperforms, hstate⟩
  · rw [hsame]
  · apply MemoryStore.read_eq_of_get?
    rw [hstate]
    apply Plan.preserved_of_perform (P := fun t => Dict.get? t.records (Path.trim path) =
      Dict.get? s.records (Path.trim path))
    · intro o ho t ht
      rw [Operation.get?_run_of_not_liesIn (hperforms.settled.isId_place o ho) hpath, ht]
    · rfl

/-! ### Resources that were looked up -/

/-- A lookup all of whose failures are handed on has found a record. -/
theorem exists_read_of_lookup {handle : Error → EngineM MemoryStore Unit}
    (hhandle : ∀ e, ∃ e', handle e = throw e')
    (h : (tryCatch (do let _ ← fromStore (Store.read path)) handle :
      EngineM MemoryStore Unit).answer s = .ok ()) :
    ∃ record, s.read path = .ok record := by
  have hread := answer_reading (fun s => s.read path) s
  cases hrecord : s.read path with
  | ok record => exact ⟨record, rfl⟩
  | error e =>
    rw [hrecord] at hread
    have hanswer : (fromStore (Store.read path) : EngineM MemoryStore Record).answer s =
      .error (.store e) := hread
    unfold answer at h
    rw [tryCatch_apply, (readOnly_read path).bind_apply, hanswer] at h
    obtain ⟨e', he'⟩ := hhandle (.store e)
    dsimp only at h
    rw [he'] at h
    cases h

theorem exists_read_of_checkOwner (h : (checkOwner owner).answer s = .ok ()) :
    ∃ record, s.read owner = .ok record := by
  refine exists_read_of_lookup (fun e => ?_) h
  cases e.kind <;> exact ⟨_, rfl⟩

theorem exists_read_of_checkReferent {target : String} (hfield : b.field.validatesReferents = true)
    (h : (b.checkReferent target).answer s = .ok ()) : ∃ record, s.read target = .ok record := by
  unfold checkReferent at h
  rw [if_pos hfield] at h
  refine exists_read_of_lookup (fun e => ?_) h
  cases e.kind <;> exact ⟨_, rfl⟩

end BoundField

/-! ### Anchored edges -/

/-- A resource that can be read, outside the container of the edges. -/
structure MemoryStore.Anchors (s : MemoryStore) (c path : String) : Prop where
  readable : ∃ record, s.read path = .ok record
  outside : ¬Path.LiesIn c path

/-- There are resources at both ends of an edge. -/
structure Edge.Anchored (e : Edge) (s : MemoryStore) (c : String) : Prop where
  first : s.Anchors c e.firstId
  second : s.Anchors c e.secondId

namespace Edge

variable {e : Edge} {s : MemoryStore} {c owner field target : String}

theorem Anchored.opposite (h : e.Anchored s c) (owner field : String) :
    s.Anchors c (e.opposite owner field) := by
  unfold Edge.opposite
  split
  · exact h.second
  · exact h.first

theorem Anchored.retarget (h : e.Anchored s c) (htarget : s.Anchors c target)
    (owner field : String) : (e.retarget owner field target).Anchored s c := by
  unfold Edge.retarget
  split
  · exact ⟨h.first, htarget⟩
  · exact ⟨htarget, h.second⟩

end Edge

namespace BoundField

variable {b : BoundField} {call : Call} {owner c : String} {replacing : Bool}
  {value : List Reference} {s t : MemoryStore} {p : Plan}

/-- A call on a field that asks for referenced resources, over the edges of a container in
    which neither its owner nor what it references lies. -/
structure Call.Outside (b : BoundField) (c : String) (call : Call) : Prop where
  container : b.edgeContainer = c
  validates : b.field.validatesReferents = true
  owner : ¬Path.LiesIn c (b.ownerPath call.id)
  targets : ∀ replacing value, call.content b = some (replacing, value) → ∀ r ∈ value,
    ∀ target, r.target = some target → ¬Path.LiesIn c target

theorem Call.Outside.anchors_run (h : call.Outside b c) {path : String} (hs : s.Anchors c path) :
    (call.run b s).2.Anchors c path := by
  refine ⟨?_, hs.outside⟩
  have houtside : ¬Path.LiesIn b.edgeContainer path := by
    rw [h.container]
    exact hs.outside
  rw [call.read_run houtside]
  exact hs.readable

/-- **What a call references is there**: it was looked up, or an edge at the field leads to
    it. -/
theorem Call.Outside.anchors_target (h : call.Outside b c)
    (hs : ∀ path e, s.EdgeAt c path e → e.Anchored s c)
    (hcontent : call.content b = some (replacing, value)) {es : List Edge} {r : Reference}
    {target : String} (hr : r ∈ value) (htarget : r.target = some target)
    (hfound : (b.existingEdges (b.ownerPath call.id)).answer s = .ok es)
    (hreferent : r.identity ∉ (b.formsOf (b.ownerPath call.id) es).map Reference.identity →
      (b.checkReferent (r.target.getD "")).answer s = .ok ()) : s.Anchors c target := by
  by_cases hknown : r.identity ∈ (b.formsOf (b.ownerPath call.id) es).map Reference.identity
  · obtain ⟨form, hform, hidentity⟩ := List.mem_map.1 hknown
    obtain ⟨e, he, rfl⟩ := List.mem_map.1 hform
    obtain ⟨_, path, hat⟩ := (mem_existingEdges_iff hfound).1 he
    rw [h.container] at hat
    have hsame : some (e.opposite (b.ownerPath call.id) b.field.name) = r.target :=
      congrArg Reference.Identity.target hidentity
    rw [htarget, Option.some.injEq] at hsame
    rw [← hsame]
    exact (hs path e hat).opposite _ _
  · have hread := exists_read_of_checkReferent h.validates (hreferent hknown)
    rw [htarget] at hread
    exact ⟨hread, h.targets replacing value hcontent r hr target htarget⟩

/-- A record that a plan leaves has resources at both ends. -/
theorem Call.Outside.exists_anchored (h : call.Outside b c)
    (hs : ∀ path e, s.EdgeAt c path e → e.Anchored s c)
    (hperforms : call.Performs b replacing value s p) {o : Operation} (ho : o ∈ p.operations)
    {revision : Nat} {stored : StoredRecord} (hleaves : o.leaves revision = some stored) :
    ∃ e : Edge, stored.fields = e.content ∧ e.Anchored s c := by
  cases hperforms.settled with
  | idle _ _ hplan =>
    rw [hplan] at ho
    cases ho
  | @found es g hfound _ howner hreferents hremovals hwrites hg =>
    rcases List.mem_append.1 ho with hremoval | hwrite
    · rw [hremovals] at hremoval
      obtain ⟨e, _, rfl⟩ := List.mem_map.1 hremoval
      cases hleaves
    · rw [hwrites, Collection.mem_ordered] at hwrite
      obtain ⟨r, hr, rfl⟩ := List.mem_map.1 hwrite
      have htargets : ∀ target, r.target = some target → s.Anchors c target :=
        fun _ htarget => h.anchors_target hs hperforms.content hr htarget hfound (hreferents r hr)
      have hwrite := hg r hr
      generalize g r = o at hleaves hwrite
      cases hwrite with
      | create hid htarget =>
        cases hleaves
        have hread := exists_read_of_checkOwner (howner (List.ne_nil_of_mem hr))
        exact ⟨_, rfl, ⟨hread, h.owner⟩, htargets _ htarget⟩
      | update hid he heid hinvolves htarget =>
        cases hleaves
        obtain ⟨_, path, hat⟩ := (mem_existingEdges_iff hfound).1 he
        rw [h.container] at hat
        obtain ⟨hfirst, hsecond⟩ := (hs path _ hat).retarget (htargets _ htarget) _ _
        exact ⟨_, rfl, hfirst, hsecond⟩

/-- **A call leaves no edge dangling** if none was. -/
theorem Call.Outside.anchored_run (h : call.Outside b c)
    (hs : ∀ path e, s.EdgeAt c path e → e.Anchored s c) :
    ∀ path e, (call.run b s).2.EdgeAt c path e → e.Anchored (call.run b s).2 c := by
  have hkept : ∀ e : Edge, e.Anchored s c → e.Anchored (call.run b s).2 c :=
    fun e he => ⟨h.anchors_run he.first, h.anchors_run he.second⟩
  rintro path e ⟨id, stored, hget, hsplit, he⟩
  rcases call.state_cases b s with hsame | ⟨replacing, value, p, hperforms, hstate⟩
  · rw [hsame] at hget ⊢
    exact hs path e ⟨id, stored, hget, hsplit, he⟩
  · have hstored := hget
    rw [hstate] at hstored
    rcases Plan.stored_of_perform hstored with hold | ⟨o, ho, hleaves⟩
    · exact hkept e (hs path e ⟨id, stored, hold, hsplit, he⟩)
    · obtain ⟨e', hfields, hanchored⟩ := h.exists_anchored hs hperforms ho hleaves
      unfold MemoryStore.StoredRecord.toRecord at he
      rw [hfields, Edge.ofRecord_content] at he
      cases he
      exact hkept _ ⟨hanchored.first, hanchored.second⟩

/-- **No edge is ever left dangling.** Fields of any number and cardinality ask for referenced
    resources and keep their edges in one container, in which no owner and no referenced
    resource lies. If both endpoints of every edge can be read in one store, then they can in
    every store that calls lead to, of either kind and whether they succeed or not. -/
theorem Run.endpoints_readable (hs : ∀ path e, s.EdgeAt c path e → e.Anchored s c)
    (hrun : Run (fun b _ call => call.Outside b c) s t) {path : String} {e : Edge}
    (h : t.EdgeAt c path e) :
    (∃ record, t.read e.firstId = .ok record) ∧ ∃ record, t.read e.secondId = .ok record := by
  have hanchored : ∀ path e, t.EdgeAt c path e → e.Anchored t c :=
    hrun.invariant (P := fun t => ∀ path e, t.EdgeAt c path e → e.Anchored t c) hs
      fun _ _ _ hcall ht => hcall.anchored_run ht
  exact ⟨(hanchored path e h).first.readable, (hanchored path e h).second.readable⟩

end BoundField

/-! ### Endpoints of a role that changes hands -/

namespace Sample

theorem outside_edges {c id : String} (hc : Path.IsContainer c) (hid : Path.IsId id)
    (hne : "repo/relationships" ≠ c) : ¬Path.LiesIn "repo/relationships" (Path.join c id) :=
  Path.not_liesIn_join isContainer_edges hc hid hne

theorem outside_user (id : String) (hid : id ∈ ["1", "2", "3", "e1", "e2"]) :
    ¬Path.LiesIn "repo/relationships" (Path.join "managed/user" id) :=
  outside_edges isContainer_users (isId_of_mem id hid) (by decide)

theorem outside_role (id : String) (hid : id ∈ ["1", "2", "3", "e1", "e2"]) :
    ¬Path.LiesIn "repo/relationships" (Path.join "managed/role" id) :=
  outside_edges isContainer_roles (isId_of_mem id hid) (by decide)

theorem give_outside : give.Outside roles "repo/relationships" where
  container := rfl
  validates := rfl
  owner := outside_user "1" (by decide)
  targets := by
    intro replacing value hcontent r hr target htarget
    have hgiven : give.content roles =
        some (true, [{ target := some (Path.join "managed/role" "1") }]) := by
      rfl
    rw [hgiven] at hcontent
    cases hcontent
    rw [List.mem_singleton.1 hr] at htarget
    cases htarget
    exact outside_role "1" (by decide)

theorem handOver_outside : handOver.Outside members "repo/relationships" where
  container := rfl
  validates := rfl
  owner := outside_role "1" (by decide)
  targets := by
    intro replacing value hcontent r hr target htarget
    have hgiven : handOver.content members =
        some (true, [{
          id := some (Ids.assigned 0)
          target := some (Path.join "managed/user" "2")
          properties := [("grant", .str "direct")] }]) := by
      rfl
    rw [hgiven] at hcontent
    cases hcontent
    rw [List.mem_singleton.1 hr] at htarget
    cases htarget
    exact outside_user "2" (by decide)

end Sample

/-- Both ends of the edge of the role that was handed over can be read. -/
theorem BoundField.Run.endpoints_readable_handedOver :
    ∃ path e, Sample.handedOver.EdgeAt "repo/relationships" path e ∧
      (∃ record, Sample.handedOver.read e.firstId = .ok record) ∧
        ∃ record, Sample.handedOver.read e.secondId = .ok record := by
  have hrun : Run (fun b _ call => call.Outside b "repo/relationships") Sample.twoUsers
      Sample.handedOver := by
    rw [Sample.handedOver]
    exact .step (.step .refl Sample.give_outside) Sample.handOver_outside
  have hlisted : ((Sample.handedOver.container "repo/relationships").map fun record =>
      (Edge.ofRecord record).isOk) = [true] := by
    decide +kernel
  obtain ⟨record, _, hcontainer, hok, _⟩ := List.map_eq_cons_iff.1 hlisted
  obtain ⟨e, he⟩ := Result.eq_ok_of_isOk hok
  obtain ⟨path, hat⟩ := MemoryStore.exists_edgeAt_iff.2
    ⟨record, hcontainer ▸ List.mem_cons_self .., he⟩
  exact ⟨path, e, hat, endpoints_readable
    (fun path e hedge => absurd hedge (Sample.withoutEdges_twoUsers path e)) hrun hat⟩

end EdgeFields
