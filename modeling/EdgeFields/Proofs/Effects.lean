/-
  EdgeFields/Proofs/Effects.lean
  ==============================
  **What a call that succeeded has made of a store.**

  A call that succeeded has performed its plan to the end: first the edges went that were to
  be removed, then the references were written one after the other (`BoundField.Performed`).
  So every edge of the store afterwards is one that was left alone or the edge of a reference
  that was written (`BoundField.Performed.edge_cases`), and different new edges come from
  different references (`Batch.exists_ne_of_place_ne`). Identifiers need not be fresh for this:
  a creation that succeeded has found its place free.
-/
import EdgeFields.Proofs.BothSides
import EdgeFields.Proofs.Steps
import EdgeFields.Proofs.Written

namespace EdgeFields

open EngineM

/-! ### Edges of well-formed stores -/

namespace MemoryStore

variable {s : MemoryStore} {c : String} {e : Edge}

theorem edgeAt_iff_hasEdge (hs : s.WellFormed) (hc : Path.IsAddress c) {path : String} :
    s.EdgeAt c path e ↔ ∃ i, path = Path.join (Path.trim c) i ∧ s.HasEdge c i e := by
  constructor
  · rintro ⟨i, r, hget, hsplit, he⟩
    obtain ⟨hid, rfl⟩ := hs.join_of_split? hget hsplit
    exact ⟨i, rfl, hid, r, hget, he⟩
  · rintro ⟨i, rfl, hid, r, hget, he⟩
    exact ⟨i, r, hget, Path.split?_join hc.isContainer_trim hid, he⟩

theorem atMostOne_iff (hs : s.WellFormed) (hc : Path.IsAddress c) {owner field : String} :
    s.AtMostOne c owner field ↔ ∀ i i' e e', s.HasEdge c i e → s.HasEdge c i' e' →
      e.involves owner field = true → e'.involves owner field = true → i = i' := by
  unfold AtMostOne
  simp only [edgeAt_iff_hasEdge hs hc]
  constructor
  · intro h i i' e e' hedge hedge' hinvolves hinvolves'
    exact Path.join_right_inj.1
      (h _ _ e e' ⟨i, rfl, hedge⟩ ⟨i', rfl, hedge'⟩ hinvolves hinvolves')
  · rintro h _ _ e e' ⟨i, rfl, hedge⟩ ⟨i', rfl, hedge'⟩ hinvolves hinvolves'
    rw [h i i' e e' hedge hedge' hinvolves hinvolves']

theorem HasEdge.of_cell_eq {t : MemoryStore} {i : String} (h : s.HasEdge c i e)
    (hcell : t.cell c i = s.cell c i) : t.HasEdge c i e := by
  obtain ⟨hid, r, hr, he⟩ := h
  exact ⟨hid, r, hcell.trans hr, he⟩

end MemoryStore

/-! ### Places of batches -/

namespace Batch

variable {c i : String} {s : MemoryStore} {os : List Operation}

/-- At a place a batch leaves what some operation there leaves, or what was there. -/
theorem cell_after_cases (c : String) (s : MemoryStore) (os : List Operation) (i : String) :
    ((after c s os).cell c i = s.cell c i ∧ ∀ q ∈ placed s.serials os, q.1 ≠ i) ∨
      ∃ q ∈ placed s.serials os, q.1 = i ∧
        ∃ revision, (after c s os).cell c i = q.2.leaves revision := by
  induction os generalizing s with
  | nil => exact .inl ⟨rfl, fun _ hq => nomatch hq⟩
  | cons o os ih =>
    rw [after, placed, ← Operation.serials_after c]
    rcases ih (o.after c s) with ⟨hcell, hrest⟩ | ⟨q, hq, hplace, hcell⟩
    · rw [Operation.cell_after] at hcell
      by_cases hfirst : o.place s.serials = i
      · rw [if_pos hfirst] at hcell
        exact .inr ⟨_, List.mem_cons_self .., hfirst, _, hcell⟩
      · rw [if_neg hfirst] at hcell
        exact .inl ⟨hcell, List.forall_mem_cons.2 ⟨hfirst, hrest⟩⟩
    · exact .inr ⟨q, List.mem_cons_of_mem _ hq, hplace, hcell⟩

theorem wellFormed_after (hs : s.WellFormed) (hc : Path.IsAddress c)
    (hos : ∀ o ∈ os, o.Authored) : (after c s os).WellFormed := by
  induction os generalizing s with
  | nil => exact hs
  | cons o os ih =>
    rw [List.forall_mem_cons] at hos
    exact ih (Operation.wellFormed_after hs hc o (hos.1.isId _)) hos.2

section Sources

variable {α : Type} {l : List α} {g : α → Operation} {n : Nat} {q q' : String × Operation}

/-- Operations at different places have different sources. -/
theorem exists_ne_of_place_ne (hl : l.Nodup) (hq : q ∈ placed n (l.map g))
    (hq' : q' ∈ placed n (l.map g)) (hne : q.1 ≠ q'.1) :
    ∃ a ∈ l, ∃ a' ∈ l, a ≠ a' ∧ q.2 = g a ∧ q'.2 = g a' := by
  have hsource : ∀ {n : Nat} {l : List α} {q : String × Operation}, q ∈ placed n (l.map g) →
      ∃ a ∈ l, q.2 = g a := by
    intro n l q hq
    obtain ⟨a, ha, heq⟩ := List.mem_map.1 (mem_of_mem_placed hq).1
    exact ⟨a, ha, heq.symm⟩
  induction l generalizing n with
  | nil => cases hq
  | cons a l ih =>
    rw [List.nodup_cons] at hl
    rw [List.map_cons, placed] at hq hq'
    rcases List.mem_cons.1 hq with rfl | hrest
    · rcases List.mem_cons.1 hq' with rfl | hrest'
      · exact absurd rfl hne
      · obtain ⟨a', ha', heq'⟩ := hsource hrest'
        exact ⟨a, List.mem_cons_self .., a', List.mem_cons_of_mem _ ha',
          fun heq => hl.1 (heq ▸ ha'), rfl, heq'⟩
    · rcases List.mem_cons.1 hq' with rfl | hrest'
      · obtain ⟨a', ha', heq'⟩ := hsource hrest
        exact ⟨a', List.mem_cons_of_mem _ ha', a, List.mem_cons_self ..,
          fun heq => hl.1 (heq ▸ ha'), heq', rfl⟩
      · obtain ⟨a₁, h₁, a₂, h₂, hsources⟩ := ih hl.2 hrest hrest'
        exact ⟨a₁, List.mem_cons_of_mem _ h₁, a₂, List.mem_cons_of_mem _ h₂, hsources⟩

/-- Different sources have their operations at different places, if all places differ. -/
theorem exists_place_ne_of_ne
    (hplaces : (placed n (l.map g)).Pairwise fun q q' => q.1 ≠ q'.1) {a a' : α} (ha : a ∈ l)
    (ha' : a' ∈ l) (hne : a ≠ a') :
    ∃ q ∈ placed n (l.map g), ∃ q' ∈ placed n (l.map g), q.1 ≠ q'.1 ∧ q.2 = g a ∧ q'.2 = g a' := by
  induction l generalizing n with
  | nil => cases ha
  | cons a₀ l ih =>
    rw [List.map_cons, placed, List.pairwise_cons] at hplaces
    rw [List.map_cons, placed]
    have hlater : ∀ {a}, a ∈ l → ∃ q ∈ placed (n + (g a₀).draws) (l.map g), q.2 = g a := by
      intro a ha
      obtain ⟨i, _, hmem⟩ := exists_mem_placed (List.mem_map_of_mem ha) (n + (g a₀).draws)
      exact ⟨_, hmem, rfl⟩
    rcases List.mem_cons.1 ha with rfl | hrest
    · rcases List.mem_cons.1 ha' with rfl | hrest'
      · exact absurd rfl hne
      · obtain ⟨q', hq', hsource⟩ := hlater hrest'
        exact ⟨_, List.mem_cons_self .., q', List.mem_cons_of_mem _ hq', hplaces.1 q' hq', rfl,
          hsource⟩
    · rcases List.mem_cons.1 ha' with rfl | hrest'
      · obtain ⟨q, hq, hsource⟩ := hlater hrest
        exact ⟨q, List.mem_cons_of_mem _ hq, _, List.mem_cons_self .., Ne.symm (hplaces.1 q hq),
          hsource, rfl⟩
      · obtain ⟨q, hq, q', hq', hsources⟩ := ih hplaces.2 hrest hrest'
        exact ⟨q, List.mem_cons_of_mem _ hq, q', List.mem_cons_of_mem _ hq', hsources⟩

end Sources

end Batch

/-! ### Calls that succeeded -/

namespace BoundField

variable {b b' : BoundField} {call : Call} {owner i : String} {replacing : Bool}
  {value : List Reference} {s between t : MemoryStore} {es : List Edge} {p : Plan} {e : Edge}
  {r : Reference} {g : Reference → Operation}

/-- What a call that succeeded has done. In between, the store had the edges that were not to
    be removed, and then the references were written to it one after the other. -/
structure Performed (b : BoundField) (owner : String) (replacing : Bool) (value : List Reference)
    (s between t : MemoryStore) (g : Reference → Operation) : Prop where
  kept : ∀ i e, between.HasEdge b.edgeContainer i e ↔ s.HasEdge b.edgeContainer i e ∧
    ¬(replacing = true ∧ e.involves owner b.field.name = true ∧ ∀ r ∈ value, r.edgeId? ≠ some i)
  nodup : value.Nodup
  writes : ∀ r ∈ value, b.WriteOf owner s r (g r)
  made : ∀ r ∈ value, Collection.Writes r (g r)
  after : t = Batch.after b.edgeContainer between ((Collection.namedFirst value).map g)
  turn : Batch.FindsInTurn b.edgeContainer between ((Collection.namedFirst value).map g)
  wellFormed : t.WellFormed

/-- Removals leave the edges that were not to be removed, and no others. -/
theorem Existing.hasEdge_after_removals (hes : b.Existing owner s es) :
    (Batch.after b.edgeContainer s
        ((Collection.removed replacing es value).map removalOf)).HasEdge b.edgeContainer i e ↔
      s.HasEdge b.edgeContainer i e ∧ ¬(replacing = true ∧
        e.involves owner b.field.name = true ∧ ∀ r ∈ value, r.edgeId? ≠ some i) := by
  have hfound : ∀ {e}, e ∈ Collection.removed replacing es value → e ∈ es :=
    fun he => (Collection.removed_sublist replacing es value).subset he
  rcases Batch.cell_after_cases b.edgeContainer s
    ((Collection.removed replacing es value).map removalOf) i with
    ⟨hcell, hnone⟩ | ⟨q, hq, hplace, revision, hcell⟩
  · constructor
    · intro hedge
      have hold : s.HasEdge b.edgeContainer i e := hedge.of_cell_eq hcell.symm
      refine ⟨hold, ?_⟩
      rintro ⟨hreplacing, hinvolves, hunnamed⟩
      have hgone := (Collection.mem_removed hes).2 ⟨hreplacing, i, hold, hinvolves, hunnamed⟩
      obtain ⟨j, _, hmem⟩ := Batch.exists_mem_placed (List.mem_map_of_mem hgone) s.serials
      have hid := hes.place_removalOf (hfound hgone) (s.serials + j)
      rw [hold.id_eq, Option.some.injEq] at hid
      exact hnone _ hmem hid.symm
    · rintro ⟨hold, _⟩
      exact hold.of_cell_eq hcell
  · obtain ⟨hmem, j, _, hat⟩ := Batch.mem_of_mem_placed hq
    obtain ⟨e', hgone, hremoval⟩ := List.mem_map.1 hmem
    rw [← hremoval] at hat hcell
    have hid : e'.id = some i := by
      rw [hes.place_removalOf (hfound hgone) (s.serials + j), ← hat, hplace]
    constructor
    · intro hedge
      obtain ⟨stored, hstored, _⟩ := hedge.revision_eq
      rw [hcell] at hstored
      cases hstored
    · rintro ⟨hold, hkept⟩
      obtain ⟨hreplacing, i', hold', hinvolves, hunnamed⟩ := (Collection.mem_removed hes).1 hgone
      rw [hold'.id_eq, Option.some.injEq] at hid
      subst hid
      rw [hold'.unique hold] at hinvolves
      exact absurd ⟨hreplacing, hinvolves, hunnamed⟩ hkept

/-- **A settled plan that succeeded was performed to the end.** -/
theorem Settled.performed (h : b.Settled owner replacing value s p) (hs : s.WellFormed)
    (hc : Path.IsAddress b.edgeContainer) (hok : (p.perform b owner s).1.isOk = true) :
    ∃ between g, b.Performed owner replacing value s between (p.perform b owner s).2 g := by
  cases h with
  | idle hreplacing hvalue hplan =>
    subst hreplacing hvalue hplan
    exact ⟨s, fun _ => .delete "" none, by simp, .nil, fun _ hr => (nomatch hr),
      fun _ hr => (nomatch hr), rfl, trivial, hs⟩
  | @found es g hfound hdistinct _ _ hremovals hwrites hg =>
    have hes := existing_of_answer hs hc hfound
    have hfits : Plan.Fits ⟨p.removals, []⟩ b.edgeContainer s :=
      hes.fits (Collection.removed_sublist replacing es value) hremovals fun _ ho => (nomatch ho)
    have hfeasible := hfits.feasible hc s.freshIds_zero
    rw [Plan.operations, List.append_nil] at hfeasible
    obtain ⟨_, hremove, _⟩ := execute_of_feasible hc owner hfeasible
    have hmade : ∀ r ∈ value, Collection.Writes r (g r) :=
      fun r hr => Collection.writes_of_writeFrom hfound (hg r hr)
    rw [Collection.ordered_map fun r hr => (hmade r hr).isCreate] at hwrites
    have hauthored := Collection.authored_of_namedFirst hmade
    rcases hperform : p.perform b owner s with ⟨x, t⟩
    rw [hperform] at hok
    obtain ⟨written, rfl⟩ := Result.eq_ok_of_isOk hok
    unfold Plan.perform at hperform
    rw [bind_ok hremove, hwrites] at hperform
    obtain ⟨_, hafter, hturn⟩ := Collection.answers_of_execute hc hauthored hperform
    refine ⟨_, g, ?_, hdistinct.of_map _, fun r hr => hes.writeOf_of_writeFrom (hg r hr), hmade,
      hafter, hturn, ?_⟩
    · intro i e
      rw [hremovals]
      exact hes.hasEdge_after_removals
    · dsimp only
      rw [hafter]
      exact Batch.wellFormed_after (hfeasible.wellFormed_after hs hc) hc hauthored

theorem Call.performed_of_ok (hs : s.WellFormed) (hc : Path.IsAddress b.edgeContainer)
    (hok : (call.run b s).1.isOk = true) :
    ∃ replacing value between g, call.content b = some (replacing, value) ∧
      b.Performed (b.ownerPath call.id) replacing value s between (call.run b s).2 g := by
  rcases call.run_cases b s with hrefused | ⟨replacing, value, p, hcontent, hsettled, hends⟩
  · have hfailed : (call.run b s).1.isOk = false := congrArg Prod.fst hrefused
    rw [hok] at hfailed
    cases hfailed
  · have hanswer : (call.run b s).1.isOk = (p.perform b (b.ownerPath call.id) s).1.isOk :=
      congrArg Prod.fst hends
    have hstate : (call.run b s).2 = (p.perform b (b.ownerPath call.id) s).2 :=
      congrArg Prod.snd hends
    rw [hok] at hanswer
    obtain ⟨between, g, hperformed⟩ := hsettled.performed hs hc hanswer.symm
    rw [← hstate] at hperformed
    exact ⟨replacing, value, between, g, hcontent, hperformed⟩

/-! ### Edges after a call -/

theorem WriteOf.exists_create {o : Operation} (h : b.WriteOf owner s r o)
    (hid : r.edgeId? = none) : ∃ e, o = .create e := by
  cases h with
  | create _ _ => exact ⟨_, rfl⟩
  | update hid' _ _ _ =>
    rw [hid] at hid'
    cases hid'

namespace Performed

/-- The operations that write the references, at their places. -/
theorem mem_source {q : String × Operation} {n : Nat}
    (hq : q ∈ Batch.placed n ((Collection.namedFirst value).map g)) :
    ∃ r ∈ value, q.2 = g r := by
  obtain ⟨r, hr, heq⟩ := List.mem_map.1 (Batch.mem_of_mem_placed hq).1
  exact ⟨r, Collection.mem_namedFirst.1 hr, heq.symm⟩

/-- **Every edge after a call was left alone, or a reference was written to its place.** -/
theorem edge_cases (h : b.Performed owner replacing value s between t g)
    (hedge : t.HasEdge b.edgeContainer i e) :
    (s.HasEdge b.edgeContainer i e ∧ (∀ r ∈ value, r.edgeId? ≠ some i) ∧
        ¬(replacing = true ∧ e.involves owner b.field.name = true)) ∨
      ∃ q ∈ Batch.placed between.serials ((Collection.namedFirst value).map g), q.1 = i ∧
        ∃ revision, t.cell b.edgeContainer i = q.2.leaves revision := by
  have hafter := h.after
  subst hafter
  rcases Batch.cell_after_cases b.edgeContainer between
    ((Collection.namedFirst value).map g) i with ⟨hcell, hnone⟩ | hplaced
  · left
    obtain ⟨hold, hkept⟩ := (h.kept i e).1 (hedge.of_cell_eq hcell.symm)
    have hunnamed : ∀ r ∈ value, r.edgeId? ≠ some i := by
      intro r hr hid
      obtain ⟨j, _, hmem⟩ := Batch.exists_mem_placed
        (List.mem_map_of_mem (Collection.mem_namedFirst.2 hr)) between.serials
      exact hnone _ hmem ((h.made r hr).place i hid _)
    exact ⟨hold, hunnamed, fun hgone => hkept ⟨hgone.1, hgone.2, hunnamed⟩⟩
  · exact .inr hplaced

/-- An edge that is neither removed nor named is left alone. -/
theorem hasEdge_of_kept (h : b.Performed owner replacing value s between t g)
    (hedge : s.HasEdge b.edgeContainer i e) (hunnamed : ∀ r ∈ value, r.edgeId? ≠ some i)
    (hkept : ¬(replacing = true ∧ e.involves owner b.field.name = true)) :
    t.HasEdge b.edgeContainer i e ∧
      ∀ q ∈ Batch.placed between.serials ((Collection.namedFirst value).map g), q.1 ≠ i := by
  have hstays := (h.kept i e).2 ⟨hedge, fun hgone => hkept ⟨hgone.1, hgone.2.1⟩⟩
  have hfree : ∀ q ∈ Batch.placed between.serials ((Collection.namedFirst value).map g),
      q.1 ≠ i := by
    intro q hq heq
    obtain ⟨r, hr, hsource⟩ := mem_source hq
    cases hid : r.edgeId? with
    | some named =>
      obtain ⟨_, j, _, hplace⟩ := Batch.mem_of_mem_placed hq
      rw [hsource, (h.made r hr).place named hid, heq] at hplace
      exact hunnamed r hr (hplace ▸ hid)
    | none =>
      obtain ⟨stored, hstored, _⟩ := hstays.revision_eq
      obtain ⟨e', he'⟩ := (h.writes r hr).exists_create hid
      exact Batch.place_ne_of_create (Collection.authored_of_namedFirst h.made) h.turn
        ⟨stored, hstored⟩ q hq e' (hsource.trans he') heq.symm
  refine ⟨?_, hfree⟩
  rw [h.after]
  exact hstays.of_cell_eq (Batch.cell_after_of_forall_ne hfree)

end Performed

/-! ### Ends of written references -/

/-- The write of a reference of an owner ends at the field of a resource: it is that field of
    the owner, or the reverse field of what is referenced. -/
def EndsAt (b : BoundField) (owner : String) (r : Reference) (resource field : String) : Prop :=
  (owner = resource ∧ b.field.name = field) ∨
    (r.target = some resource ∧ b.field.reverseName = some field)

/-- **An edge that is written ends at both fields**: that of the owner and the reverse one of
    the target. -/
theorem Opposite.involves_iff_endsAt (h : b.Opposite b') (hs : s.WellFormed)
    (hc : Path.IsAddress b.edgeContainer)
    (hjoins : s.AllJoin b.edgeContainer b.field.name b'.field.name) {o : Operation}
    (hwrite : b.WriteOf owner s r o) :
    ∃ e : Edge, (∀ revision, o.leaves revision = some ⟨revision, e.content⟩) ∧
      ∀ resource field, e.involves resource field = true ↔ b.EndsAt owner r resource field := by
  cases hwrite with
  | @create target hid htarget =>
    refine ⟨_, fun _ => rfl, fun resource field => ?_⟩
    simp [Edge.involves, Edge.firstIs, Edge.secondIs, createdEdge, EndsAt, htarget]
  | @update id target e hid hedge hinvolves htarget =>
    refine ⟨_, fun _ => rfl, fun resource field => ?_⟩
    have hjoin := hjoins _ e
      ((MemoryStore.edgeAt_iff_hasEdge hs hc).2 ⟨id, rfl, hedge⟩)
    unfold updatedEdge Edge.retarget
    cases hfirst : e.firstIs owner b.field.name with
    | true =>
      simp only [Edge.firstIs, Bool.and_eq_true, beq_iff_eq] at hfirst
      simp [Edge.involves, Edge.firstIs, Edge.secondIs, EndsAt, htarget, hfirst.1, hfirst.2,
        hjoin.secondName_eq hfirst.2, h.forth]
    | false =>
      have hsecond : e.secondIs owner b.field.name = true := by
        simpa [Edge.involves, hfirst] using hinvolves
      simp only [Edge.secondIs, Bool.and_eq_true, beq_iff_eq] at hsecond
      simp [Edge.involves, Edge.firstIs, Edge.secondIs, EndsAt, htarget, hsecond.1, hsecond.2,
        hjoin.firstName_eq hsecond.2, h.forth, or_comm]

end BoundField

end EdgeFields
