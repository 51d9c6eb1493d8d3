/-
  EdgeFields/Proofs/SingleEdge.lean
  =================================
  **When a singleton field holds one edge.**

  A singleton removes the edges of an owner before it gives him a new one. But edges at its
  field are also written from the far end: through the opposite field, and for other owners
  when the field is its own reverse. There nobody asks whether the owner at the far end has an
  edge already, so that he may get a second one (`BoundField.manager_holds_two`).

  A call spares a field (`BoundField.Spares`) if no two of its references end there at one
  owner, and none where an edge stays. As long as calls from the far end spare a singleton
  field, every owner has at most one edge and reading the field never fails for several. No
  more can be said: a call that names no edge twice and does not spare the field gives some
  owner two edges (`BoundField.Opposite.single_of_run`).
-/
import EdgeFields.Proofs.Effects

namespace EdgeFields

open EngineM

namespace BoundField

variable {f b b' : BoundField} {call : Call} {owner resource field i : String}
  {replacing : Bool} {value : List Reference} {s between t : MemoryStore} {e : Edge}
  {r : Reference} {o : Operation} {g : Reference → Operation}

/-! ### Calls that spare a field of a resource -/

/-- Of the references that are written at most one ends at the field of a resource, and it
    does so where no edge stays that is neither named nor removed. -/
structure Spares (b : BoundField) (owner : String) (replacing : Bool) (value : List Reference)
    (s : MemoryStore) (resource field : String) : Prop where
  apart : ∀ r ∈ value, ∀ r' ∈ value, b.EndsAt owner r resource field →
    b.EndsAt owner r' resource field → r = r'
  free : ∀ r ∈ value, b.EndsAt owner r resource field →
    ∀ i e, s.HasEdge b.edgeContainer i e → e.involves resource field = true →
      (∃ r' ∈ value, r'.edgeId? = some i) ∨
        (replacing = true ∧ e.involves owner b.field.name = true)

theorem Spares.not_endsAt (h : b.Spares owner replacing value s resource field)
    (hedge : s.HasEdge b.edgeContainer i e) (hinvolves : e.involves resource field = true)
    (hunnamed : ∀ r ∈ value, r.edgeId? ≠ some i)
    (hkept : ¬(replacing = true ∧ e.involves owner b.field.name = true)) :
    ∀ r ∈ value, ¬b.EndsAt owner r resource field := by
  intro r hr hends
  rcases h.free r hr hends i e hedge hinvolves with ⟨r', hr', hid⟩ | hgone
  · exact hunnamed r' hr' hid
  · exact hkept hgone

section Opposites

variable (hopposite : b.Opposite b') (hs : s.WellFormed) (hc : Path.IsAddress b.edgeContainer)
  (hjoins : s.AllJoin b.edgeContainer b.field.name b'.field.name)

include hopposite hs hc hjoins

/-- What the write of a reference left at an identifier is an edge that ends where the
    reference does. -/
theorem exists_hasEdge_of_leaves {revision : Nat} (hwrite : b.WriteOf owner s r o)
    (hid : Path.IsId i) (hcell : t.cell b.edgeContainer i = o.leaves revision) :
    ∃ e, t.HasEdge b.edgeContainer i e ∧ ∀ resource field,
      e.involves resource field = true ↔ b.EndsAt owner r resource field := by
  obtain ⟨e, hleaves, hends⟩ := hopposite.involves_iff_endsAt hs hc hjoins hwrite
  rw [hleaves] at hcell
  exact ⟨_, .of_content hid hcell, hends⟩

/-- **A call that spares the field of a resource leaves at most one edge there**, if there was
    at most one. -/
theorem Performed.atMostOne (h : b.Performed owner replacing value s between t g)
    (hone : s.AtMostOne b.edgeContainer resource field)
    (hspares : b.Spares owner replacing value s resource field) :
    t.AtMostOne b.edgeContainer resource field := by
  rw [MemoryStore.atMostOne_iff hs hc] at hone
  rw [MemoryStore.atMostOne_iff h.wellFormed hc]
  have hends : ∀ {i e o}, t.HasEdge b.edgeContainer i e → e.involves resource field = true →
      (∃ revision, t.cell b.edgeContainer i = o.leaves revision) → ∀ r ∈ value, o = g r →
      b.EndsAt owner r resource field := by
    rintro i e o hedge hinvolves ⟨revision, hcell⟩ r hr rfl
    obtain ⟨e', hedge', hends⟩ :=
      exists_hasEdge_of_leaves hopposite hs hc hjoins (h.writes r hr) hedge.isId hcell
    rw [hedge.unique hedge', hends] at hinvolves
    exact hinvolves
  intro i i' e e' hedge hedge' hinvolves hinvolves'
  -- two edges that were left alone are one; no new edge ends beside an old one, and no two do
  rcases h.edge_cases hedge with ⟨hold, hunnamed, hkept⟩ | ⟨q, hq, hplace, hcell⟩
  · rcases h.edge_cases hedge' with ⟨hold', _, _⟩ | ⟨q', hq', _, hcell'⟩
    · exact hone i i' e e' hold hold' hinvolves hinvolves'
    · obtain ⟨r, hr, hsource⟩ := Performed.mem_source hq'
      exact absurd (hends hedge' hinvolves' hcell' r hr hsource)
        (hspares.not_endsAt hold hinvolves hunnamed hkept r hr)
  · rcases h.edge_cases hedge' with ⟨hold', hunnamed', hkept'⟩ | ⟨q', hq', hplace', hcell'⟩
    · obtain ⟨r, hr, hsource⟩ := Performed.mem_source hq
      exact absurd (hends hedge hinvolves hcell r hr hsource)
        (hspares.not_endsAt hold' hinvolves' hunnamed' hkept' r hr)
    · by_contra hne
      rw [← hplace, ← hplace'] at hne
      obtain ⟨r, hr, r', hr', hother, hsource, hsource'⟩ :=
        Batch.exists_ne_of_place_ne (Collection.nodup_namedFirst h.nodup) hq hq' hne
      rw [Collection.mem_namedFirst] at hr hr'
      exact hother (hspares.apart r hr r' hr' (hends hedge hinvolves hcell r hr hsource)
        (hends hedge' hinvolves' hcell' r' hr' hsource'))

/-- **A call after which there is at most one edge at the field of a resource spared it**, if
    it named no edge twice. -/
theorem Performed.spares (h : b.Performed owner replacing value s between t g)
    (hnamed : (value.filterMap Reference.edgeId?).Nodup)
    (hone : t.AtMostOne b.edgeContainer resource field) :
    b.Spares owner replacing value s resource field := by
  rw [MemoryStore.atMostOne_iff h.wellFormed hc] at hone
  -- with places of their own all written edges are there, not only the last of each place
  have hplaces := (Collection.pairwise_placed_iff h.made h.turn).2 hnamed
  have hwritten : ∀ q ∈ Batch.placed between.serials ((Collection.namedFirst value).map g),
      ∀ r ∈ value, q.2 = g r → b.EndsAt owner r resource field →
        ∃ e, t.HasEdge b.edgeContainer q.1 e ∧ e.involves resource field = true := by
    intro q hq r hr hsource hends
    obtain ⟨revision, hcell⟩ := Batch.cell_after_of_mem (c := b.edgeContainer) hplaces hq
    rw [← h.after, hsource] at hcell
    have hid : Path.IsId q.1 := by
      obtain ⟨hmem, j, _, hplace⟩ := Batch.mem_of_mem_placed hq
      rw [hplace]
      exact (Collection.authored_of_namedFirst h.made q.2 hmem).isId _
    obtain ⟨e, hedge, hinvolves⟩ :=
      exists_hasEdge_of_leaves hopposite hs hc hjoins (h.writes r hr) hid hcell
    exact ⟨e, hedge, (hinvolves resource field).2 hends⟩
  constructor
  · intro r hr r' hr' hends hends'
    by_contra hne
    obtain ⟨q, hq, q', hq', hother, hsource, hsource'⟩ := Batch.exists_place_ne_of_ne hplaces
      (Collection.mem_namedFirst.2 hr) (Collection.mem_namedFirst.2 hr') hne
    obtain ⟨e, hedge, hinvolves⟩ := hwritten q hq r hr hsource hends
    obtain ⟨e', hedge', hinvolves'⟩ := hwritten q' hq' r' hr' hsource' hends'
    exact hother (hone _ _ e e' hedge hedge' hinvolves hinvolves')
  · intro r hr hends i e hedge hinvolves
    by_contra hstays
    obtain ⟨hunnamed, hkept⟩ := not_or.1 hstays
    obtain ⟨hedge', hfree⟩ :=
      h.hasEdge_of_kept hedge (fun r' hr' hid => hunnamed ⟨r', hr', hid⟩) hkept
    obtain ⟨j, _, hmem⟩ := Batch.exists_mem_placed
      (List.mem_map_of_mem (Collection.mem_namedFirst.2 hr)) between.serials
    obtain ⟨e', hwrites, hinvolves'⟩ := hwritten _ hmem r hr rfl hends
    exact hfree _ hmem (hone _ _ e' e hwrites hedge' hinvolves' hinvolves)

end Opposites

/-! ### Calls that spare a singleton -/

/-- Every owner has at most one edge at the field. -/
def Single (f : BoundField) (s : MemoryStore) : Prop :=
  ∀ id, s.AtMostOne f.edgeContainer (f.ownerPath id) f.field.name

/-- A call through one field spares another one, or the same, for all its owners. -/
def Call.Spares (f b : BoundField) (s : MemoryStore) (call : Call) : Prop :=
  ∀ replacing value, call.content b = some (replacing, value) →
    ∀ id, b.Spares (b.ownerPath call.id) replacing value s (f.ownerPath id) f.field.name

theorem Call.content_of_single (hsingle : b.field.cardinality = .single)
    (h : call.content b = some (replacing, value)) :
    value = [] ∨ ∃ r, value = [r] ∧ replacing = r.edgeId?.isNone := by
  cases call with
  | clear id =>
    cases h
    exact .inl rfl
  | set flag id document =>
    simp only [content, hsingle] at h
    cases hdocument : Reference.optionOfJson document with
    | error e =>
      rw [hdocument] at h
      cases h
    | ok form =>
      rw [hdocument] at h
      cases form with
      | none =>
        cases h
        exact .inl rfl
      | some r =>
        cases h
        exact .inr ⟨r, rfl, rfl⟩

/-- **A singleton spares itself** where its owner has at most one edge: the edges of the owner
    go, or the only one is named. From the near end it reaches no other owner. -/
theorem Performed.spares_own (h : b.Performed owner replacing value s between t g)
    (hs : s.WellFormed) (hc : Path.IsAddress b.edgeContainer)
    (hvalue : value = [] ∨ ∃ r, value = [r] ∧ replacing = r.edgeId?.isNone)
    (hreverse : b.field.reverseName ≠ some b.field.name)
    (hone : s.AtMostOne b.edgeContainer resource b.field.name) :
    b.Spares owner replacing value s resource b.field.name := by
  rw [MemoryStore.atMostOne_iff hs hc] at hone
  rcases hvalue with rfl | ⟨r, rfl, rfl⟩
  · exact ⟨fun _ hr => (nomatch hr), fun _ hr => (nomatch hr)⟩
  constructor
  · intro r₁ hr₁ r₂ hr₂ _ _
    rw [List.mem_singleton.1 hr₁, List.mem_singleton.1 hr₂]
  · intro r₁ hr₁ hends i e hedge hinvolves
    rw [List.mem_singleton.1 hr₁] at hends
    obtain ⟨rfl, _⟩ := hends.resolve_right fun hfar => hreverse hfar.2
    have hwrite := h.writes r (List.mem_singleton_self r)
    generalize g r = o at hwrite
    cases hwrite with
    | create hid htarget => exact .inr ⟨by rw [hid]; rfl, hinvolves⟩
    | @update i' target e' hid hedge' hinvolves' htarget =>
      rw [hone i i' e e' hedge hedge' hinvolves hinvolves']
      exact .inl ⟨r, List.mem_singleton_self r, hid⟩

end BoundField

/-! ### Reading single edges -/

namespace Singleton

variable {b : BoundField} {id : String} {s : MemoryStore}

theorem exists_get_of_current {form : Option Reference}
    (h : (current b (b.ownerPath id)).answer s = .ok form) :
    ∃ read, (get b id).answer s = .ok read := by
  unfold get
  rw [(readOnly_current b _).answer_bind, h, Result.ok_bind]
  cases form with
  | none => exact ⟨none, rfl⟩
  | some r =>
    obtain ⟨r', hrun, _⟩ := BoundField.expandOrKeep_apply r s
    dsimp only
    split
    · rw [answer_map, answer, hrun]
      exact ⟨some r', rfl⟩
    · exact ⟨some r, rfl⟩

theorem current_ne_severalEdges {owner : String}
    (hone : s.AtMostOne b.edgeContainer owner b.field.name) (name owner' : String) (n : Nat) :
    (current b owner).answer s ≠ .error (.severalEdges name owner' n) := by
  unfold current
  rw [(BoundField.readOnly_existingEdges b owner).answer_bind, BoundField.answer_existingEdges]
  cases hes : (s.related b.edgeContainer owner b.field.name).mapM Edge.ofRecord with
  | error e => exact fun herror => nomatch herror
  | ok es =>
    have hlength := (MemoryStore.length_le_one_iff hes).2 hone
    rcases es with _ | ⟨e, _ | ⟨e', es⟩⟩
    · exact fun herror => nomatch herror
    · exact fun herror => nomatch herror
    · simp at hlength

/-- **Reading a singleton does not fail for several edges** where there is at most one. -/
theorem get_ne_severalEdges (hone : s.AtMostOne b.edgeContainer (b.ownerPath id) b.field.name)
    (name owner : String) (n : Nat) :
    (get b id).answer s ≠ .error (.severalEdges name owner n) := by
  have hcurrent := current_ne_severalEdges hone name owner n
  cases h : (current b (b.ownerPath id)).answer s with
  | error e =>
    rw [h] at hcurrent
    unfold get
    rw [(readOnly_current b _).answer_bind, h]
    exact hcurrent
  | ok form =>
    obtain ⟨read, hread⟩ := exists_get_of_current h
    rw [hread]
    exact fun herror => nomatch herror

end Singleton

/-! ### Runs of calls -/

namespace BoundField

variable {f f' b : BoundField} {call : Call} {s t : MemoryStore}

/-- A call through one of two fields that succeeds. -/
structure Call.Succeeds (f f' b : BoundField) (s : MemoryStore) (call : Call) : Prop where
  either : b = f ∨ b = f'
  isOk : (call.run b s).1.isOk = true

/-- A call through one of two opposite fields that succeeds and, if the first field is at the
    far end of what it writes, spares that field. -/
structure Call.Sparing (f f' b : BoundField) (s : MemoryStore) (call : Call) : Prop extends
    call.Succeeds f f' b s where
  spares : b.field.reverseName = some f.field.name → call.Spares f b s

/-- No two references of a call name one edge. -/
def Call.NamesOnce (b : BoundField) (call : Call) : Prop :=
  ∀ replacing value, call.content b = some (replacing, value) →
    (value.filterMap Reference.edgeId?).Nodup

/-- The store of two opposite fields: all edges are between the two. -/
structure Between (f f' : BoundField) (s : MemoryStore) : Prop where
  wellFormed : s.WellFormed
  joins : s.AllJoin f.edgeContainer f.field.name f'.field.name

theorem Opposite.exists_of_either (h : f.Opposite f') (hb : b = f ∨ b = f') :
    ∃ b', b.Opposite b' ∧ b.edgeContainer = f.edgeContainer ∧ ∀ s : MemoryStore,
      s.AllJoin f.edgeContainer f.field.name f'.field.name ↔
        s.AllJoin b.edgeContainer b.field.name b'.field.name := by
  rcases hb with rfl | rfl
  · exact ⟨f', h, rfl, fun _ => Iff.rfl⟩
  · refine ⟨f, h.symm, h.container.symm, fun s => ?_⟩
    rw [h.container]
    exact ⟨MemoryStore.AllJoin.symm, MemoryStore.AllJoin.symm⟩

section Steps

variable (h : f.Opposite f') (hc : Path.IsAddress f.edgeContainer) (hs : Between f f' s)

include h hc hs

theorem Call.Succeeds.between_run (hcall : call.Succeeds f f' b s) :
    Between f f' (call.run b s).2 := by
  obtain ⟨b', hopposite, hcontainer, hjoins⟩ := h.exists_of_either hcall.either
  rw [← hcontainer] at hc
  obtain ⟨_, _, _, _, _, hperformed⟩ := call.performed_of_ok hs.wellFormed hc hcall.isOk
  refine ⟨hperformed.wellFormed, (hjoins _).2 ?_⟩
  exact hopposite.allJoin_of_run ((hjoins s).1 hs.joins) call

/-- **A call keeps a singleton field single if it spares it.** -/
theorem Call.Succeeds.single_of_spares (hcall : call.Succeeds f f' b s) (hsingle : f.Single s)
    (hspares : call.Spares f b s) : f.Single (call.run b s).2 := by
  obtain ⟨b', hopposite, hcontainer, hjoins⟩ := h.exists_of_either hcall.either
  have hjoins' := (hjoins s).1 hs.joins
  unfold Single at hsingle ⊢
  rw [← hcontainer] at hc hsingle ⊢
  obtain ⟨replacing, value, _, _, hcontent, hperformed⟩ :=
    call.performed_of_ok hs.wellFormed hc hcall.isOk
  intro id
  exact hperformed.atMostOne hopposite hs.wellFormed hc hjoins' (hsingle id)
    (hspares replacing value hcontent id)

/-- **A call keeps a singleton field single only if it spares it.** -/
theorem Call.Succeeds.spares_of_single (hcall : call.Succeeds f f' b s)
    (honce : call.NamesOnce b) (hsingle : f.Single (call.run b s).2) : call.Spares f b s := by
  obtain ⟨b', hopposite, hcontainer, hjoins⟩ := h.exists_of_either hcall.either
  have hjoins' := (hjoins s).1 hs.joins
  unfold Single at hsingle
  rw [← hcontainer] at hc hsingle
  obtain ⟨replacing, value, _, _, hcontent, hperformed⟩ :=
    call.performed_of_ok hs.wellFormed hc hcall.isOk
  intro replacing' value' hcontent' id
  rw [hcontent] at hcontent'
  cases hcontent'
  exact hperformed.spares hopposite hs.wellFormed hc hjoins' (honce replacing value hcontent)
    (hsingle id)

/-- Calls through a singleton field spare it anyway, unless it is its own reverse. -/
theorem Call.Sparing.single_run (hcardinality : f.field.cardinality = .single)
    (hcall : call.Sparing f f' b s) (hsingle : f.Single s) : f.Single (call.run b s).2 := by
  by_cases hfar : b.field.reverseName = some f.field.name
  · exact hcall.single_of_spares h hc hs hsingle (hcall.spares hfar)
  · have hb : b = f := hcall.either.resolve_right fun hb => hfar (hb ▸ h.back)
    subst hb
    apply hcall.single_of_spares h hc hs hsingle
    obtain ⟨replacing, value, _, _, hcontent, hperformed⟩ :=
      call.performed_of_ok hs.wellFormed hc hcall.isOk
    intro replacing' value' hcontent' id
    rw [hcontent] at hcontent'
    cases hcontent'
    exact hperformed.spares_own hs.wellFormed hc (call.content_of_single hcardinality hcontent)
      hfar (hsingle id)

end Steps

/-- **A singleton field holds one edge as long as calls from the far end spare it.** Two fields
    are each other's reverse and the first one is a singleton. Calls through the two have
    succeeded, one after the other from a store without edges, and those that end at the first
    field spared it. Then every owner has at most one edge, so that reading the field never
    fails for several. Of any further call, the field stays single just when the call spares
    it. -/
theorem Opposite.single_of_run (h : f.Opposite f') (hcardinality : f.field.cardinality = .single)
    (hsettings : f.settings.Accepted) (hs : s.WellFormed) (hempty : s.WithoutEdges f.edgeContainer)
    (hrun : Run (fun b s call => call.Sparing f f' b s) s t) :
    f.Single t ∧
    (∀ context id name owner n,
      (f.getValue context id).answer t ≠ .error (.severalEdges name owner n)) ∧
    ∀ (b : BoundField) (call : Call), call.Succeeds f f' b t → call.NamesOnce b →
      (f.Single (call.run b t).2 ↔ call.Spares f b t) := by
  have hc : Path.IsAddress f.edgeContainer := hsettings.isAddress
  have hfirst : f.Single s := fun id path _ e _ hedge => absurd hedge (hempty path e)
  obtain ⟨hbetween, hsingle⟩ : Between f f' t ∧ f.Single t := by
    apply hrun.invariant (P := fun t => Between f f' t ∧ f.Single t)
      ⟨⟨hs, hempty.allJoin⟩, hfirst⟩
    intro b t call hcall ⟨hbetween, hsingle⟩
    exact ⟨hcall.between_run h hc hbetween, hcall.single_run h hc hbetween hcardinality hsingle⟩
  refine ⟨hsingle, ?_, ?_⟩
  · intro context id name owner n herror
    unfold getValue at herror
    simp only [hcardinality, answer_map] at herror
    have hne := Singleton.get_ne_severalEdges (hsingle id) name owner n
    cases hget : (Singleton.get f id).answer t with
    | error e =>
      rw [hget] at herror hne
      cases herror
      exact hne rfl
    | ok read =>
      rw [hget] at herror
      cases herror
  · intro b call hcall honce
    exact ⟨hcall.spares_of_single h hc hbetween honce,
      hcall.single_of_spares h hc hbetween hsingle⟩

end BoundField

/-! ### A user with two managers -/

namespace Sample

/-- The reports of a user, who have him as their manager. -/
def reports : BoundField where
  container := "managed/user"
  field := {
    name := "reports", isReverse := true, cardinality := .collection,
    reverseName := some "manager" }
  settings := {}

theorem opposite_manager_reports : manager.Opposite reports := ⟨rfl, rfl, rfl⟩

theorem accepted_reports : reports.settings.Accepted := rfl

theorem wellFormed_staff : staff.WellFormed :=
  ((MemoryStore.wellFormed_empty.put isContainer_users (isId_of_mem _ (by decide)) _).put
    isContainer_users (isId_of_mem _ (by decide)) _).put
    isContainer_users (isId_of_mem _ (by decide)) _

theorem withoutEdges_staff : staff.WithoutEdges manager.edgeContainer :=
  MemoryStore.withoutEdges_of_isEmpty (by decide +kernel)

/-- A user takes the third one as his only report. -/
def supervise (id : String) : BoundField.Call :=
  .set true id (.arr [.obj [("_ref", .str "managed/user/3")]])

def supervised : MemoryStore := ((supervise "1").run reports staff).2

theorem succeeds_supervise : (supervise "1").Succeeds manager reports reports staff :=
  ⟨.inr rfl, by decide +kernel⟩

end Sample

namespace BoundField

/-- The third user has one manager after the first one has taken him as a report. -/
theorem Opposite.single_of_run_supervised :
    Sample.manager.Single Sample.supervised ∧
      ((Sample.manager.getValue (.fresh 0) "3").answer Sample.supervised).toOption.map
        (fun value => (Reference.documents value).length) = some 1 := by
  have hspares : (Sample.supervise "1").Spares Sample.manager Sample.reports Sample.staff := by
    intro replacing value hcontent id
    have hgiven : (Sample.supervise "1").content Sample.reports =
        some (true, [{ target := some "managed/user/3" }]) := rfl
    rw [hgiven] at hcontent
    cases hcontent
    constructor
    · intro r hr r' hr' _ _
      rw [List.mem_singleton.1 hr, List.mem_singleton.1 hr']
    · intro r _ _ i e hedge _
      exact absurd ((MemoryStore.edgeAt_iff_hasEdge Sample.wellFormed_staff
        Sample.accepted_reports.isAddress).2 ⟨i, rfl, hedge⟩) (Sample.withoutEdges_staff _ e)
  have hrun : Run (fun b s call => call.Sparing Sample.manager Sample.reports b s) Sample.staff
      Sample.supervised := .step .refl ⟨Sample.succeeds_supervise, fun _ => hspares⟩
  have hsingle := Sample.opposite_manager_reports.single_of_run rfl rfl Sample.wellFormed_staff
    Sample.withoutEdges_staff hrun
  exact ⟨hsingle.1, by decide +kernel⟩

/-- **A singleton field may come to hold two edges.** Two users take the same one as their
    report. Both calls succeed, and the field of his manager cannot be read any more. -/
theorem manager_holds_two :
    ∃ t, Sample.staff.WithoutEdges Sample.manager.edgeContainer ∧
      Sample.manager.Opposite Sample.reports ∧ Sample.manager.field.cardinality = .single ∧
      Run (fun b s call => call.Succeeds Sample.manager Sample.reports b s) Sample.staff t ∧
      ¬Sample.manager.Single t ∧
      (Sample.manager.getValue (.fresh 0) "3").answer t =
        .error (.severalEdges "manager" "managed/user/3" 2) := by
  have hread : (Singleton.get Sample.manager "3").answer
      ((Sample.supervise "2").run Sample.reports Sample.supervised).2 =
        .error (.severalEdges "manager" "managed/user/3" 2) := by
    rfl
  refine ⟨((Sample.supervise "2").run Sample.reports Sample.supervised).2,
    Sample.withoutEdges_staff, Sample.opposite_manager_reports, rfl,
    .step (.step .refl Sample.succeeds_supervise) ⟨.inr rfl, by decide +kernel⟩, ?_, ?_⟩
  · intro hsingle
    exact Singleton.get_ne_severalEdges (hsingle "3") _ _ _ hread
  · show (Reference.optionToJson <$> Singleton.get Sample.manager "3" :
      EngineM MemoryStore Json).answer _ = _
    rw [answer_map, hread]
    rfl

end BoundField

end EdgeFields
