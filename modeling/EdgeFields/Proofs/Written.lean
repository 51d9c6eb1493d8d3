/-
  EdgeFields/Proofs/Written.lean
  ==============================
  **Which of the returned references the store holds.**

  A write returns the client form of every edge record that it wrote. Two references of a
  value may name one edge, in `_id` or among the properties: the check on repetitions compares
  targets and properties and lets them pass when they differ. Both are written then, and both
  are returned, but only the last one is held. `Collection.set_holds_written` says so of every
  write that succeeds: a returned reference is what the store holds just when none behind it
  names the same edge, and all of them are held just when no two references of the value name
  one edge.

  Nothing is asked of the store or of the identifiers that it assigns: a creation that
  succeeded has found its place free, and revisions only grow.
-/
import EdgeFields.Proofs.Operations
import EdgeFields.Proofs.Replace

namespace EdgeFields

open EngineM
open MemoryStore (StoredRecord.toRecord)

/-! ### Writes that succeeded -/

/-- Different revisions have different texts. -/
theorem Record.revision_inj {m n : Nat} (h : toString m = toString n) : m = n := by
  have hdigits : Nat.toDigits 10 m = Nat.toDigits 10 n := by
    rw [Nat.toString_eq_ofList_toDigits, Nat.toString_eq_ofList_toDigits] at h
    simpa using congrArg String.toList h
  calc m = Nat.ofDigitChars 10 (Nat.toDigits 10 m) 0 := Nat.ofDigitChars_ten_toDigits.symm
    _ = Nat.ofDigitChars 10 (Nat.toDigits 10 n) 0 := by rw [hdigits]
    _ = n := Nat.ofDigitChars_ten_toDigits

namespace MemoryStore

variable {s : MemoryStore} {c id id' : String} {r : StoredRecord}

theorem cell_of_find (hc : Path.IsAddress c) (hid : Path.IsId id)
    (h : s.find (Path.join c id) = .ok (id', r)) : s.cell c id = some r := by
  have hget := (find_eq_ok_iff.1 h).2
  rwa [hc.trim_join hid] at hget

end MemoryStore

namespace Operation

variable {c : String} {s t : MemoryStore} {o : Operation} {record : Record}

/-- A write as the engine makes them: its properties hold no bookkeeping, and what it updates
    is named by an identifier that can stand in a path. -/
inductive Authored : Operation → Prop
  | create {e : Edge} (hplain : Record.Plain e.properties) : Authored (.create e)
  | update {id : String} {e : Edge} (hid : Path.IsId id) (hplain : Record.Plain e.properties) :
    Authored (.update id none e)

theorem Authored.isId (h : o.Authored) (serial : Nat) : Path.IsId (o.place serial) := by
  cases h with
  | create hplain => exact Ids.isId_assigned serial
  | update hid hplain => exact hid

theorem Authored.exists_leaves (h : o.Authored) :
    ∃ e : Edge, Record.Plain e.properties ∧
      ∀ revision, o.leaves revision = some ⟨revision, e.content⟩ := by
  cases h with
  | create hplain => exact ⟨_, hplain, fun _ => rfl⟩
  | update hid hplain => exact ⟨_, hplain, fun _ => rfl⟩

theorem Authored.revisions_after (h : o.Authored) (c : String) (s : MemoryStore) :
    (o.after c s).revisions = s.revisions + 1 := by
  cases h <;> rfl

/-- **A write that succeeded had found what it needs**: a creation an unused identifier, an
    update a record. -/
theorem Authored.finds_of_run (h : o.Authored) (hc : Path.IsAddress c)
    (hrun : o.run c s = (.ok record, t)) : o.Finds (s.cell c (o.place s.serials)) := by
  cases h with
  | @create e hplain =>
    rw [run_create] at hrun
    rcases MemoryStore.writing_cases hrun with ⟨_, _, hcreate⟩ | ⟨_, herror, _⟩
    · exact (MemoryStore.create_eq_ok_cases hcreate).1
    · cases herror
  | @update id e hid hplain =>
    rw [run_update] at hrun
    rcases MemoryStore.writing_cases hrun with ⟨_, _, hupdate⟩ | ⟨_, herror, _⟩
    · obtain ⟨⟨_, r, hfind⟩, _⟩ := MemoryStore.update_eq_ok_cases hupdate
      exact ⟨r, MemoryStore.cell_of_find hc hid hfind, .inl rfl⟩
    · cases herror

end Operation

namespace Batch

variable {c id : String} {s t : MemoryStore} {os : List Operation}

/-- Every operation of a batch finds what it needs when its turn comes. -/
def FindsInTurn (c : String) : MemoryStore → List Operation → Prop
  | _, [] => True
  | s, o :: os => o.Finds (s.cell c (o.place s.serials)) ∧ FindsInTurn c (o.after c s) os

/-- **A batch of writes without a failure did all of them**: it answers the records that they
    left, one after the other. -/
theorem of_runFrom_of_failures_eq_nil (hc : Path.IsAddress c) (hos : ∀ o ∈ os, o.Authored)
    {index : Nat} {report : Report} (h : runFrom c index os s = (report, t))
    (hfailures : report.failures = []) :
    report.completed.map (·.2) = answers c s os ∧ t = after c s os ∧ FindsInTurn c s os := by
  induction os generalizing s index report with
  | nil =>
    cases h
    exact ⟨rfl, rfl, trivial⟩
  | cons o os ih =>
    rw [List.forall_mem_cons] at hos
    rcases hrun : o.run c s with ⟨x, s'⟩
    rcases hrest : runFrom c (index + 1) os s' with ⟨rest, t'⟩
    simp only [runFrom, bind, StateT.bind, ExceptT.run, hrun, hrest] at h
    cases h
    cases x with
    | error e => cases hfailures
    | ok record =>
      have hfinds := hos.1.finds_of_run hc hrun
      have hall := Operation.run_of_finds hc o (hos.1.isId _) hfinds
      rw [hrun] at hall
      cases hall
      obtain ⟨hanswers, hafter, hturn⟩ := ih hos.2 hrest hfailures
      refine ⟨?_, hafter, hfinds, hturn⟩
      rw [answers, ← hanswers]
      rfl

theorem of_execute_eq_ok (hc : Path.IsAddress c) (hos : ∀ o ∈ os, o.Authored)
    {width : Nat} {records : List Record} (h : execute c width none os s = (.ok records, t)) :
    records = answers c s os ∧ t = after c s os ∧ FindsInTurn c s os := by
  rcases hrun : runFrom c 0 os s with ⟨report, t'⟩
  rw [execute_eq, hrun] at h
  unfold Report.result at h
  dsimp only at h
  split at h
  · rename_i hfailures
    cases h
    exact of_runFrom_of_failures_eq_nil hc hos hrun hfailures
  · cases h

/-! ### What a batch of writes leaves -/

/-- At the place of a write the batch leaves a record whose revision is later than any before
    the batch. -/
theorem exists_cell_after_of_placed (hos : ∀ o ∈ os, o.Authored)
    (h : ∃ q ∈ placed s.serials os, q.1 = id) :
    ∃ r, (after c s os).cell c id = some r ∧ s.revisions < r.revision := by
  induction os generalizing s with
  | nil =>
    obtain ⟨q, hq, _⟩ := h
    cases hq
  | cons o os ih =>
    rw [List.forall_mem_cons] at hos
    rw [after]
    by_cases hlater : ∃ q ∈ placed (o.after c s).serials os, q.1 = id
    · obtain ⟨r, hcell, hlt⟩ := ih hos.2 hlater
      rw [hos.1.revisions_after] at hlt
      exact ⟨r, hcell, Nat.lt_of_succ_lt hlt⟩
    · -- no later write has this place, so that the first one's record stays
      have hplace : o.place s.serials = id := by
        obtain ⟨q, hq, hid⟩ := h
        rw [placed, ← Operation.serials_after c, List.mem_cons] at hq
        rcases hq with rfl | hq
        · exact hid
        · exact absurd ⟨q, hq, hid⟩ hlater
      obtain ⟨e, _, hleaves⟩ := hos.1.exists_leaves
      refine ⟨⟨s.revisions + 1, e.content⟩, ?_, Nat.lt_succ_self _⟩
      rw [cell_after_of_forall_ne fun q hq heq => hlater ⟨q, hq, heq⟩, Operation.cell_after,
        if_pos hplace, hleaves]

/-- No creation of a batch takes the place of a record that was there before. -/
theorem place_ne_of_create (hos : ∀ o ∈ os, o.Authored) (hturn : FindsInTurn c s os)
    (hcell : ∃ r, s.cell c id = some r) :
    ∀ q ∈ placed s.serials os, ∀ e, q.2 = .create e → id ≠ q.1 := by
  induction os generalizing s with
  | nil => exact fun _ hq => (nomatch hq)
  | cons o os ih =>
    rw [List.forall_mem_cons] at hos
    rw [placed, ← Operation.serials_after c, List.forall_mem_cons]
    constructor
    · rintro e rfl rfl
      obtain ⟨r, hr⟩ := hcell
      have hnone : s.cell c ((Operation.create e).place s.serials) = none := hturn.1
      rw [hr] at hnone
      cases hnone
    · apply ih hos.2 hturn.2
      rw [Operation.cell_after]
      split
      · obtain ⟨e, _, hleaves⟩ := hos.1.exists_leaves
        exact ⟨_, hleaves _⟩
      · exact hcell

/-- **A creation never takes the place of an earlier write.** -/
theorem pairwise_place_ne_of_create (hos : ∀ o ∈ os, o.Authored) (hturn : FindsInTurn c s os) :
    (placed s.serials os).Pairwise fun q q' => ∀ e, q'.2 = .create e → q.1 ≠ q'.1 := by
  induction os generalizing s with
  | nil => exact .nil
  | cons o os ih =>
    rw [List.forall_mem_cons] at hos
    rw [placed, ← Operation.serials_after c, List.pairwise_cons]
    refine ⟨?_, ih hos.2 hturn.2⟩
    apply place_ne_of_create hos.2 hturn.2
    obtain ⟨e, _, hleaves⟩ := hos.1.exists_leaves
    refine ⟨⟨s.revisions + 1, e.content⟩, ?_⟩
    rw [Operation.cell_after, if_pos rfl, hleaves]

end Batch

namespace Collection

variable {b : BoundField} {replacing : Bool} {id owner : String} {value : List Reference}
  {s s' : MemoryStore} {os : List Operation} {written : List Reference} {w : Reference}

/-! ### Held references -/

/-- The store holds what a reference says: the edge that it names has its revision and its
    properties, and leads from the owner to its target. -/
def Held (b : BoundField) (owner : String) (s : MemoryStore) (w : Reference) : Prop :=
  ∃ id e, w.edgeId? = some id ∧ s.HasEdge b.edgeContainer id e ∧ w.revision = e.revision ∧
    w.target = some (e.opposite owner b.field.name) ∧ w.edgeProperties = e.properties

/-- The identifiers that a batch answers are the places of its operations. -/
theorem map_edgeId?_of_answers
    (h : (Batch.answers b.edgeContainer s os).mapM (b.toReference owner) = .ok written) :
    written.map Reference.edgeId? = (Batch.placed s.serials os).map fun q => some q.1 := by
  induction os generalizing s written with
  | nil =>
    cases h
    rfl
  | cons o os ih =>
    rw [Batch.answers, Result.mapM_cons, Result.bind_eq_ok] at h
    obtain ⟨w, hw, h⟩ := h
    obtain ⟨ws, hws, h⟩ := Result.bind_eq_ok.1 h
    cases h
    obtain ⟨e, he, rfl⟩ := BoundField.toReference_eq_ok.1 hw
    have hid : (Reference.ofEdge e owner b.field.name).edgeId? = some (o.place s.serials) :=
      Reference.edgeId?_ofEdge (Edge.ofRecord_eq_ok he).1
    rw [List.map_cons, Batch.placed, List.map_cons, hid, ih hws, Operation.serials_after]

/-- What the first write of a batch answers is held afterwards, unless its place is written
    again. -/
theorem held_first_iff {o : Operation} (ho : o.Authored) (hos : ∀ o ∈ os, o.Authored)
    (hw : b.toReference owner (o.answer b.edgeContainer s) = .ok w) :
    Held b owner (Batch.after b.edgeContainer s (o :: os)) w ↔
      ∀ q ∈ Batch.placed (o.after b.edgeContainer s).serials os, some q.1 ≠ w.edgeId? := by
  obtain ⟨e, hplain, hleaves⟩ := ho.exists_leaves
  rw [BoundField.toReference_answer hleaves] at hw
  have hform := (Except.ok.inj hw).symm
  have hid : w.edgeId? = some (o.place s.serials) := by
    rw [hform]
    exact Reference.edgeId?_ofEdge rfl
  rw [hid]
  constructor
  · rintro ⟨id, e', hid', hheld, hrevision, _⟩ q hq heq
    rw [hid, Option.some.injEq] at hid'
    subst hid'
    obtain ⟨r, hcell, hrevision'⟩ := hheld.revision_eq
    obtain ⟨r', hcell', hlater⟩ := Batch.exists_cell_after_of_placed (c := b.edgeContainer) hos
      ⟨q, hq, Option.some.inj heq⟩
    rw [Batch.after, hcell'] at hcell
    cases hcell
    rw [hform, hrevision'] at hrevision
    have hrevisions := Record.revision_inj (Option.some.inj hrevision)
    rw [ho.revisions_after, hrevisions] at hlater
    exact Nat.lt_irrefl _ hlater
  · intro hlast
    have hcell : (Batch.after b.edgeContainer s (o :: os)).cell b.edgeContainer
        (o.place s.serials) = some ⟨s.revisions + 1, e.content⟩ := by
      rw [Batch.after, Batch.cell_after_of_forall_ne fun q hq heq => hlast q hq (congrArg some heq),
        Operation.cell_after, if_pos rfl, hleaves]
    rw [hform] at hid ⊢
    refine ⟨_, _, hid, .of_content (ho.isId _) hcell, rfl, rfl, ?_⟩
    rw [Reference.edgeProperties_ofEdge]
    exact hplain.withoutBookkeeping_eq

/-- **Of the references that a batch of writes answers, those are held that none behind them
    names again.** -/
theorem held_iff_of_answers (hos : ∀ o ∈ os, o.Authored)
    (h : (Batch.answers b.edgeContainer s os).mapM (b.toReference owner) = .ok written) :
    ∀ w rest, (w :: rest) <:+ written →
      (Held b owner (Batch.after b.edgeContainer s os) w ↔
        ∀ w' ∈ rest, w'.edgeId? ≠ w.edgeId?) := by
  induction os generalizing s written with
  | nil =>
    cases h
    intro w rest hsuffix
    cases List.suffix_nil.1 hsuffix
  | cons o os ih =>
    rw [List.forall_mem_cons] at hos
    rw [Batch.answers, Result.mapM_cons, Result.bind_eq_ok] at h
    obtain ⟨w₀, hw, h⟩ := h
    obtain ⟨ws, hws, h⟩ := Result.bind_eq_ok.1 h
    cases h
    intro w rest hsuffix
    rcases List.suffix_cons_iff.1 hsuffix with heq | hsuffix
    · cases heq
      have hids := map_edgeId?_of_answers hws
      rw [held_first_iff hos.1 hos.2 hw]
      constructor
      · intro hplaces w' hw' heq
        have hmem : w'.edgeId? ∈ ws.map Reference.edgeId? := List.mem_map_of_mem hw'
        rw [hids, List.mem_map] at hmem
        obtain ⟨q, hq, hid⟩ := hmem
        exact hplaces q hq (hid.trans heq)
      · intro hnone q hq heq
        have hmem : some q.1 ∈ ws.map Reference.edgeId? := by
          rw [hids]
          exact List.mem_map.2 ⟨q, hq, rfl⟩
        obtain ⟨w', hw', hid⟩ := List.mem_map.1 hmem
        exact hnone w' hw' (hid.trans heq)
    · exact ih hos.2 hws w rest hsuffix

/-! ### Written values -/

/-- The store holds all of some references, if of those with one identifier it holds the last
    one only, just when no identifier comes twice. -/
theorem forall_held_iff {t : MemoryStore}
    (h : ∀ w rest, (w :: rest) <:+ written →
      (Held b owner t w ↔ ∀ w' ∈ rest, w'.edgeId? ≠ w.edgeId?)) :
    (∀ w ∈ written, Held b owner t w) ↔ (written.map Reference.edgeId?).Nodup := by
  induction written with
  | nil => simp
  | cons w ws ih =>
    have hfirst := h w ws (List.suffix_refl _)
    have hrest := ih fun w' rest hsuffix => h w' rest (hsuffix.trans (List.suffix_cons _ _))
    rw [List.forall_mem_cons, hfirst, hrest, List.map_cons, List.nodup_cons, List.mem_map]
    simp only [not_exists, not_and]

/-- An operation as the engine makes it for a reference: an update of the edge that the
    reference names, or else a creation. -/
structure Writes (r : Reference) (o : Operation) : Prop where
  authored : o.Authored
  isCreate : isCreate o = r.edgeId?.isNone
  place : ∀ named, r.edgeId? = some named → ∀ serial, o.place serial = named

theorem writes_of_writeFrom {es : List Edge} {r : Reference} {o : Operation}
    (hfound : (b.existingEdges owner).answer s = .ok es) (h : b.WriteFrom owner es r o) :
    Writes r o := by
  cases h with
  | create hid htarget =>
    refine ⟨.create (Reference.plain_edgeProperties r), by rw [hid]; rfl, ?_⟩
    intro named hnamed
    rw [hid] at hnamed
    cases hnamed
  | update hid he heid hinvolves htarget =>
    obtain ⟨id', heid', hisId⟩ := BoundField.exists_id_of_mem hfound he
    rw [heid] at heid'
    cases heid'
    refine ⟨.update hisId (Reference.plain_edgeProperties r), by rw [hid]; rfl, ?_⟩
    intro named hnamed serial
    rw [hid] at hnamed
    cases hnamed
    rfl

theorem authored_of_namedFirst {g : Reference → Operation} (hg : ∀ r ∈ value, Writes r (g r)) :
    ∀ o ∈ (namedFirst value).map g, o.Authored := by
  intro o ho
  obtain ⟨r, hr, rfl⟩ := List.mem_map.1 ho
  exact (hg r (mem_namedFirst.1 hr)).authored

theorem answers_of_execute (hc : Path.IsAddress b.edgeContainer) (hos : ∀ o ∈ os, o.Authored)
    (h : b.execute owner os s = (.ok written, s')) :
    (Batch.answers b.edgeContainer s os).mapM (b.toReference owner) = .ok written ∧
      s' = Batch.after b.edgeContainer s os ∧ Batch.FindsInTurn b.edgeContainer s os := by
  by_cases hne : os = []
  · subst hne
    cases h
    exact ⟨rfl, rfl, trivial⟩
  · rw [BoundField.execute_apply hne] at h
    rcases hrun : Batch.execute b.edgeContainer b.settings.maxConcurrentOperations none os s
      with ⟨e | records, t⟩
    · rw [hrun] at h
      cases h
    · rw [hrun] at h
      obtain ⟨rfl, rfl, hturn⟩ := Batch.of_execute_eq_ok hc hos hrun
      obtain ⟨hforms, hs'⟩ := Prod.mk.inj h
      exact ⟨hforms, hs'.symm, hturn⟩

/-- A write that succeeded wrote its references one after the other, to the store that was
    left when the edges to remove were gone. -/
theorem exists_writes_of_set (hc : Path.IsAddress b.edgeContainer)
    (h : set b replacing id value s = (.ok written, s')) :
    ∃ (t : MemoryStore) (g : Reference → Operation),
      (∀ r ∈ value, Writes r (g r)) ∧
      (Batch.answers b.edgeContainer t ((namedFirst value).map g)).mapM
        (b.toReference (b.ownerPath id)) = .ok written ∧
      s' = Batch.after b.edgeContainer t ((namedFirst value).map g) ∧
      Batch.FindsInTurn b.edgeContainer t ((namedFirst value).map g) := by
  obtain ⟨p, hplan, hperform⟩ := exists_perform_of_set h
  obtain ⟨removed, t, _, hexecute⟩ := of_bind_eq_ok hperform
  obtain ⟨g, hwrites, hg⟩ := exists_writes_of_answer_plan hplan
  have hmade : ∀ r ∈ value, Writes r (g r) := by
    intro r hr
    obtain ⟨es, hfound, hwrite⟩ := hg r hr
    exact writes_of_writeFrom hfound hwrite
  rw [ordered_map fun r hr => (hmade r hr).isCreate] at hwrites
  rw [hwrites] at hexecute
  obtain ⟨hforms, hs', hturn⟩ := answers_of_execute hc (authored_of_namedFirst hmade) hexecute
  exact ⟨t, g, hmade, hforms, hs', hturn⟩

/-- The places of updates are the identifiers that their references name. -/
theorem map_placed_named {g : Reference → Operation} (n : Nat)
    (hg : ∀ r ∈ value, Writes r (g r)) :
    (Batch.placed n ((value.filter (·.edgeId?.isSome)).map g)).map (·.1) =
      value.filterMap Reference.edgeId? := by
  induction value generalizing n with
  | nil => rfl
  | cons r rs ih =>
    rw [List.forall_mem_cons] at hg
    cases hid : r.edgeId? with
    | none =>
      rw [List.filter_cons_of_neg (by simp [hid]), List.filterMap_cons_none hid]
      exact ih n hg.2
    | some named =>
      rw [List.filter_cons_of_pos (by simp [hid]), List.filterMap_cons_some hid, List.map_cons,
        Batch.placed, List.map_cons, hg.1.place named hid, ih _ hg.2]

/-- **The writes of a value have places of their own just when no edge is named twice.** -/
theorem pairwise_placed_iff {t : MemoryStore} {g : Reference → Operation}
    (hg : ∀ r ∈ value, Writes r (g r))
    (hturn : Batch.FindsInTurn b.edgeContainer t ((namedFirst value).map g)) :
    ((Batch.placed t.serials ((namedFirst value).map g)).Pairwise fun q q' => q.1 ≠ q'.1) ↔
      (value.filterMap Reference.edgeId?).Nodup := by
  have hcreations := Batch.pairwise_place_ne_of_create (authored_of_namedFirst hg) hturn
  rw [← map_placed_named t.serials hg, List.Nodup, List.pairwise_map]
  rw [namedFirst, List.map_append, Batch.placed_append, List.pairwise_append] at hcreations ⊢
  constructor
  · exact fun h => h.1
  · intro hupdates
    -- what stands behind the updates are creations, which never take a place that is taken
    have hcreate : ∀ n, ∀ q ∈ Batch.placed n ((value.filter (·.edgeId?.isNone)).map g),
        ∃ e, q.2 = .create e := by
      intro n q hq
      obtain ⟨r, hr, heq⟩ := List.mem_map.1 (Batch.mem_of_mem_placed hq).1
      obtain ⟨hr, hnone⟩ := List.mem_filter.1 hr
      have his : isCreate q.2 = true := by
        rw [← heq, (hg r hr).isCreate, hnone]
      cases hop : q.2 with
      | create e => exact ⟨e, rfl⟩
      | update id expected e =>
        rw [hop] at his
        cases his
      | delete id expected =>
        rw [hop] at his
        cases his
    refine ⟨hupdates, hcreations.2.1.imp_of_mem ?_, ?_⟩
    · intro q q' _ hq' hne
      obtain ⟨e, he⟩ := hcreate _ q' hq'
      exact hne e he
    · intro q hq q' hq'
      obtain ⟨e, he⟩ := hcreate _ q' hq'
      exact hcreations.2.2 q hq q' hq' e he

theorem held_iff_of_set (hc : Path.IsAddress b.edgeContainer)
    (h : set b replacing id value s = (.ok written, s')) :
    ∀ w rest, (w :: rest) <:+ written →
      (Held b (b.ownerPath id) s' w ↔ ∀ w' ∈ rest, w'.edgeId? ≠ w.edgeId?) := by
  obtain ⟨t, g, hg, hforms, rfl, _⟩ := exists_writes_of_set hc h
  exact held_iff_of_answers (authored_of_namedFirst hg) hforms

theorem nodup_edgeId?_of_set_iff (hc : Path.IsAddress b.edgeContainer)
    (h : set b replacing id value s = (.ok written, s')) :
    (written.map Reference.edgeId?).Nodup ↔ (value.filterMap Reference.edgeId?).Nodup := by
  obtain ⟨t, g, hg, hforms, rfl, hturn⟩ := exists_writes_of_set hc h
  rw [map_edgeId?_of_answers hforms, List.Nodup, List.pairwise_map,
    ← pairwise_placed_iff hg hturn]
  simp only [ne_eq, Option.some.injEq]

/-- **A returned reference is what the store holds just when no later one names the same
    edge.** All of them are held just when no two references of the value name one edge. -/
theorem set_holds_written (b : BoundField) (replacing : Bool) (id : String)
    (value : List Reference) (s s' : MemoryStore) (written : List Reference)
    (hsettings : b.settings.Accepted)
    (h : set b replacing id value s = (.ok written, s')) :
    (∀ w rest, (w :: rest) <:+ written →
      (Held b (b.ownerPath id) s' w ↔ ∀ w' ∈ rest, w'.edgeId? ≠ w.edgeId?)) ∧
    ((∀ w ∈ written, Held b (b.ownerPath id) s' w) ↔
      (value.filterMap Reference.edgeId?).Nodup) := by
  have hheld := held_iff_of_set hsettings.isAddress h
  refine ⟨hheld, ?_⟩
  rw [forall_held_iff hheld, nodup_edgeId?_of_set_iff hsettings.isAddress h]

/-- A value that names the edge of the first role for another role too. -/
def namedTwice : List Reference :=
  [{ id := some "e1", target := some "managed/role/1", properties := [("grant", .str "direct")] },
    { id := some "e1", target := some "managed/role/2" }]

/-- The first role with a property and a third role beside it: nothing is named twice. -/
def namedOnce : List Reference :=
  [{ id := some "e1", target := some "managed/role/1", properties := [("grant", .str "direct")] },
    { target := some "managed/role/3" }]

theorem set_holds_written_namedOnce :
    ∃ written s', set Sample.roles true "1" namedOnce Sample.store = (.ok written, s') ∧
      written.length = 2 ∧ ∀ w ∈ written, Held Sample.roles (Sample.roles.ownerPath "1") s' w := by
  have hlength : (set Sample.roles true "1" namedOnce Sample.store).1.toOption.map List.length =
      some 2 := by
    decide +kernel
  rcases h : set Sample.roles true "1" namedOnce Sample.store with ⟨e | written, s'⟩
  · rw [h] at hlength
    cases hlength
  · rw [h] at hlength
    have hall := set_holds_written Sample.roles true "1" namedOnce Sample.store s' written
      Sample.accepted_roles h
    exact ⟨written, s', rfl, Option.some.inj hlength, hall.2.2 (by decide)⟩

/-- **A write may return a reference that the store does not hold.** Both references of an edge
    are written and returned; the first one is lost. -/
theorem set_loses_reference :
    ∃ written s' w, set Sample.roles true "1" namedTwice Sample.store = (.ok written, s') ∧
      w ∈ written ∧ ¬Held Sample.roles (Sample.roles.ownerPath "1") s' w := by
  have hids : (set Sample.roles true "1" namedTwice Sample.store).1.toOption.map
      (List.map Reference.edgeId?) = some [some "e1", some "e1"] := by
    decide +kernel
  rcases h : set Sample.roles true "1" namedTwice Sample.store with ⟨e | written, s'⟩
  · rw [h] at hids
    cases hids
  · rw [h] at hids
    obtain ⟨w, ws, rfl, hw, hws⟩ := List.map_eq_cons_iff.1 (Option.some.inj hids)
    obtain ⟨w', ws', rfl, hw', _⟩ := List.map_eq_cons_iff.1 hws
    refine ⟨_, s', w, rfl, List.mem_cons_self .., ?_⟩
    intro hheld
    have hlast := (held_iff_of_set Sample.accepted_roles.isAddress h w (w' :: ws')
      (List.suffix_refl _)).1 hheld w' (List.mem_cons_self ..)
    exact hlast (hw'.trans hw.symm)

end Collection

end EdgeFields
