/-
  EdgeFields/Proofs/Replace.lean
  ==============================
  **Bulk replacement is exact.**

  `Collection.Replaced` says what a write of a collection makes of every record of the
  store: edges that the value names are rewritten in place, references without an edge get
  one new edge each, edges at the field that the value does not name go or stay as a whole,
  and nothing else changes. `Collection.set_replaces` proves it of every write that
  succeeds.

  All operations of a plan have places of their own once no two references name one edge
  (`Collection.Drawn.places`), so that what becomes of a record is decided by at most one
  of them.
-/
import EdgeFields.Proofs.Rejection

namespace EdgeFields

open EngineM
open MemoryStore (StoredRecord.toRecord)

/-! ### Written edges -/

namespace BoundField

variable {b : BoundField} {owner target : String} {r : Reference} {e e' : Edge}

/-- A stored edge after a reference that names it was written: it keeps the names of both
    fields and the endpoint at which the owner's field stands, the first one if it stands
    at both. -/
structure Rewritten (b : BoundField) (owner : String) (r : Reference) (e e' : Edge) : Prop where
  firstName : e'.firstName = e.firstName
  secondName : e'.secondName = e.secondName
  atFirst : e.firstIs owner b.field.name = true →
    e'.firstId = e.firstId ∧ r.target = some e'.secondId
  atSecond : e.firstIs owner b.field.name = false →
    e'.secondId = e.secondId ∧ r.target = some e'.firstId
  properties : e'.properties = r.edgeProperties

/-- The edge of a reference that names none: the owner stands at its first endpoint. -/
structure Created (b : BoundField) (owner : String) (r : Reference) (e : Edge) : Prop where
  firstId : e.firstId = owner
  firstName : e.firstName = b.field.name
  secondId : r.target = some e.secondId
  secondName : e.secondName = b.field.reverseName
  properties : e.properties = r.edgeProperties

theorem rewritten_updatedEdge (h : r.target = some target) (id revision : Option String) :
    b.Rewritten owner r e { b.updatedEdge owner e target r with id, revision } := by
  unfold updatedEdge Edge.retarget
  cases hfirst : e.firstIs owner b.field.name with
  | true =>
    refine ⟨rfl, rfl, fun _ => ⟨rfl, h⟩, fun hsecond => ?_, rfl⟩
    rw [hfirst] at hsecond
    cases hsecond
  | false =>
    refine ⟨rfl, rfl, fun hfirst' => ?_, fun _ => ⟨rfl, h⟩, rfl⟩
    rw [hfirst] at hfirst'
    cases hfirst'

theorem created_createdEdge (h : r.target = some target) (id revision : Option String) :
    b.Created owner r { b.createdEdge owner target r with id, revision } :=
  ⟨rfl, rfl, h, rfl, rfl⟩

/-- References that the same new edge belongs to are the same relationship. -/
theorem Created.identity_eq {r' : Reference} (h : b.Created owner r e)
    (h' : b.Created owner r' e) : r.identity = r'.identity := by
  unfold Reference.identity
  rw [h.secondId, h'.secondId, ← h.properties, ← h'.properties]

theorem Created.involves (h : b.Created owner r e) : e.involves owner b.field.name = true := by
  unfold Edge.involves Edge.firstIs
  rw [h.firstId, h.firstName]
  simp

theorem Created.target_eq (h : b.Created owner r e) :
    r.target = some (e.opposite owner b.field.name) := by
  unfold Edge.opposite Edge.firstIs
  rw [h.firstId, h.firstName, h.secondId]
  simp

/-- Seen from the owner, a rewritten edge leads to the target. -/
theorem opposite_updatedEdge (target : String) (r : Reference)
    (hinvolves : e.involves owner b.field.name = true) :
    (b.updatedEdge owner e target r).opposite owner b.field.name = target := by
  unfold updatedEdge Edge.retarget
  cases hfirst : e.firstIs owner b.field.name with
  | true => exact Edge.opposite_of_firstIs hfirst
  | false =>
    -- the owner stands at the second endpoint; the first one moves, perhaps onto the owner
    have hsecond : e.secondIs owner b.field.name = true := by
      simpa [Edge.involves, hfirst] using hinvolves
    exact Edge.opposite_of_secondIs hsecond

theorem opposite_createdEdge (b : BoundField) (owner target : String) (r : Reference) :
    (b.createdEdge owner target r).opposite owner b.field.name = target := by
  simp [createdEdge, Edge.opposite, Edge.firstIs]

end BoundField

namespace Collection

variable {b : BoundField} {replacing : Bool} {id owner : String} {value : List Reference}
  {s s' : MemoryStore} {p : Plan}

/-! ### Written references -/

theorem edgeId?_of_writeOf_update {r : Reference} {expected : Option String} {e : Edge}
    (h : b.WriteOf owner s r (.update id expected e)) : r.edgeId? = some id := by
  cases h with
  | update hid => exact hid

theorem created_of_writeOf_create {r : Reference} {e : Edge}
    (h : b.WriteOf owner s r (.create e)) : b.Created owner r e := by
  cases h with
  | create _ htarget => exact ⟨rfl, rfl, htarget, rfl, rfl⟩

/-! ### What becomes of the records -/

/-- An edge at the field of an owner that the value does not name. -/
structure Unnamed (b : BoundField) (owner : String) (value : List Reference) (s : MemoryStore)
    (id : String) (e : Edge) : Prop where
  stored : s.HasEdge b.edgeContainer id e
  involves : e.involves owner b.field.name = true
  unnamed : ∀ r ∈ value, r.edgeId? ≠ some id

/-- A new edge of a reference, under an identifier that no record had. -/
structure Added (b : BoundField) (owner : String) (r : Reference) (s s' : MemoryStore)
    (id : String) (e : Edge) : Prop where
  unused : s.cell b.edgeContainer id = none
  stored : s'.HasEdge b.edgeContainer id e
  created : b.Created owner r e

/-- What the write of a value makes of a store. -/
structure Replaced (b : BoundField) (replacing : Bool) (owner : String) (value : List Reference)
    (s s' : MemoryStore) : Prop where
  /-- A named edge of the field is rewritten in place. -/
  named : ∀ r ∈ value, ∀ id, r.edgeId? = some id → ∃ e e',
    s.HasEdge b.edgeContainer id e ∧ e.involves owner b.field.name = true ∧
      s'.HasEdge b.edgeContainer id e' ∧ b.Rewritten owner r e e'
  /-- A reference without an edge gets exactly one. -/
  created : ∀ r ∈ value, r.edgeId? = none → ∃ id, (∃ e, Added b owner r s s' id e) ∧
    ∀ id' e', Added b owner r s s' id' e' → id' = id
  /-- An edge of the field that is not named is gone, or as it was when not replacing. -/
  unnamed : ∀ id e, Unnamed b owner value s id e →
    s'.cell b.edgeContainer id = if replacing then none else s.cell b.edgeContainer id
  /-- Every other record is as it was. -/
  elsewhere : ∀ path, Dict.get? s'.records path ≠ Dict.get? s.records path →
    ∃ id, path = Path.join (Path.trim b.edgeContainer) id ∧
      ((∃ r ∈ value, r.edgeId? = some id) ∨
        (replacing = true ∧ ∃ e, Unnamed b owner value s id e) ∨
        ∃ r ∈ value, r.edgeId? = none ∧ ∃ e, Added b owner r s s' id e)

/-- The references of a value in the order in which they are written: those that name an
    edge first. -/
def namedFirst (value : List Reference) : List Reference :=
  value.filter (·.edgeId?.isSome) ++ value.filter (·.edgeId?.isNone)

theorem mem_namedFirst {r : Reference} : r ∈ namedFirst value ↔ r ∈ value := by
  unfold namedFirst
  rw [List.mem_append, List.mem_filter, List.mem_filter]
  cases r.edgeId? <;> simp

theorem nodup_namedFirst (h : value.Nodup) : (namedFirst value).Nodup := by
  have hnone : value.filter (·.edgeId?.isNone) = value.filter (!·.edgeId?.isSome) := by
    simp only [Option.not_isSome]
  rw [namedFirst, hnone]
  exact (List.filter_append_perm _ value).nodup_iff.2 h

/-- What the write of a value returns: the client forms of the edges as they are stored now,
    in the order in which the references were written. -/
structure Answered (b : BoundField) (owner : String) (value : List Reference) (s' : MemoryStore)
    (written : List Reference) : Prop where
  order : written.map (fun w => (w.target, w.edgeProperties)) =
    (namedFirst value).map fun r => (r.target, r.edgeProperties)
  forms : ∀ w ∈ written, ∃ id e, s'.HasEdge b.edgeContainer id e ∧
    w = .ofEdge e owner b.field.name

namespace Drawn

/-! ### Operations of a plan -/

/-- Updates of a plan are of different records, if no two references name the same edge,
    and its creations are of different edges. -/
theorem pairwise_writes (h : Drawn b replacing owner value s p)
    (hnamed : (value.filterMap Reference.edgeId?).Pairwise (· ≠ ·)) :
    p.writes.Pairwise fun o o' =>
      (∀ id e e', o = .update id none e → o' ≠ .update id none e') ∧
      ∀ e, o = .create e → o' ≠ .create e := by
  obtain ⟨g, hwrites, hg⟩ := h.writes
  have hmap : (value.map g).Pairwise fun o o' =>
      (∀ id e e', o = .update id none e → o' ≠ .update id none e') ∧
      ∀ e, o = .create e → o' ≠ .create e := by
    rw [List.pairwise_map]
    rw [List.pairwise_filterMap] at hnamed
    have hdistinct := h.distinct
    rw [List.pairwise_map] at hdistinct
    apply (hnamed.and hdistinct).imp_of_mem
    intro r r' hr hr' ⟨hne, hidentity⟩
    constructor
    · intro id e e' heq heq'
      have hid := edgeId?_of_writeOf_update (heq ▸ hg r hr)
      have hid' := edgeId?_of_writeOf_update (heq' ▸ hg r' hr')
      exact hne id hid id hid' rfl
    · intro e heq heq'
      have hcreated := created_of_writeOf_create (heq ▸ hg r hr)
      have hcreated' := created_of_writeOf_create (heq' ▸ hg r' hr')
      exact hidentity (hcreated.identity_eq hcreated')
  rw [hwrites, ordered, List.pairwise_append]
  refine ⟨hmap.filter _, hmap.filter _, ?_⟩
  intro o ho o' ho'
  have hother := (List.mem_filter.1 ho).2
  have hcreate := (List.mem_filter.1 ho').2
  constructor
  · intro id e e' _ heq
    rw [heq] at hcreate
    cases hcreate
  · intro e heq _
    rw [heq] at hother
    cases hother

theorem exists_writeOf (h : Drawn b replacing owner value s p) {r : Reference}
    (hr : r ∈ value) : ∃ o ∈ p.operations, b.WriteOf owner s r o := by
  obtain ⟨g, hwrites, hg⟩ := h.writes
  refine ⟨g r, List.mem_append_right _ ?_, hg r hr⟩
  rw [hwrites, mem_ordered]
  exact List.mem_map_of_mem hr

/-- What an operation of a plan is placed at: an edge that is not named and goes, an edge
    that a reference names, or a fresh identifier for a new edge. -/
theorem placed_cases (h : Drawn b replacing owner value s p)
    (hfits : p.Fits b.edgeContainer s) (hc : Path.IsAddress b.edgeContainer)
    (hfresh : s.FreshIds (Batch.draws p.writes)) {q : String × Operation}
    (hq : q ∈ Batch.placed s.serials p.operations) :
    (replacing = true ∧ ∃ e, Unnamed b owner value s q.1 e) ∨
      (∃ r ∈ value, r.edgeId? = some q.1 ∧ ∃ e, s.HasEdge b.edgeContainer q.1 e) ∨
      ∃ r ∈ value, r.edgeId? = none ∧ s.cell b.edgeContainer q.1 = none ∧
        ∃ target, r.target = some target ∧ q.2 = .create (b.createdEdge owner target r) := by
  have hfinds := hfits.finds hc hfresh hq
  obtain ⟨hmem, i, _, hplace⟩ := Batch.mem_of_mem_placed hq
  rcases List.mem_append.1 hmem with hremoval | hwrite
  · obtain ⟨hreplacing, id, e, hedge, hinvolves, hnot, heq⟩ := (h.removals q.2).1 hremoval
    rw [heq] at hplace
    rw [hplace]
    exact .inl ⟨hreplacing, e, hedge, hinvolves, hnot⟩
  · obtain ⟨g, hwrites, hg⟩ := h.writes
    rw [hwrites, mem_ordered, List.mem_map] at hwrite
    obtain ⟨r, hr, heq⟩ := hwrite
    have hof := hg r hr
    rw [heq] at hof
    obtain ⟨place, o⟩ := q
    cases hof with
    | create hid htarget => exact .inr (.inr ⟨r, hr, hid, hfinds, _, htarget, rfl⟩)
    | update hid hedge hinvolves htarget =>
      rw [hplace]
      exact .inr (.inl ⟨r, hr, hid, _, hedge⟩)

theorem eq_of_create (h : Drawn b replacing owner value s p) (hfits : p.Fits b.edgeContainer s)
    (hnamed : (value.filterMap Reference.edgeId?).Pairwise (· ≠ ·)) {q q' : String × Operation}
    (hq : q ∈ Batch.placed s.serials p.operations)
    (hq' : q' ∈ Batch.placed s.serials p.operations) {e : Edge} (he : q.2 = .create e)
    (he' : q'.2 = .create e) : q = q' := by
  have hremoval : ∀ o ∈ p.removals, ∀ e, o ≠ .create e := by
    intro o ho e heq
    obtain ⟨id, e', _, heq'⟩ := hfits.removals o ho
    rw [heq] at heq'
    cases heq'
  have hpairwise : (Batch.placed s.serials p.operations).Pairwise fun q q' =>
      ∀ e, q.2 = .create e → q'.2 ≠ .create e := by
    apply Batch.pairwise_placed
    refine List.pairwise_append.2 ⟨?_, ?_, ?_⟩
    · apply List.pairwise_of_forall_mem_list
      intro o ho o' _ i j _ _ e heq
      exact absurd heq (hremoval o ho e)
    · exact (h.pairwise_writes hnamed).imp fun hne i j _ _ => hne.2
    · intro o ho o' _ i j _ _ e heq
      exact absurd heq (hremoval o ho e)
  refine List.Pairwise.forall_of_forall_of_flip
    (R := fun q q' : String × Operation => q.2 = .create e → q'.2 = .create e → q = q')
    (fun _ _ _ _ => rfl) ?_ ?_ hq hq' he he'
  · exact hpairwise.imp fun hne heq heq' => absurd heq' (hne e heq)
  · exact hpairwise.imp fun hne heq' heq => absurd heq' (hne e heq)

/-! ### Plans of which no two references name the same edge -/

section Distinct

variable (h : Drawn b replacing owner value s p) (hfits : p.Fits b.edgeContainer s)
  (hc : Path.IsAddress b.edgeContainer) (hfresh : s.FreshIds (Batch.draws p.writes))
  (hnamed : (value.filterMap Reference.edgeId?).Pairwise (· ≠ ·))

include h hfits hc hfresh hnamed

/-- **No two operations of a plan have the same place**, if no two references name the same
    edge. -/
theorem places :
    (Batch.placed s.serials p.operations).Pairwise fun q q' => q.1 ≠ q'.1 := by
  have hupdates : (Batch.placed s.serials p.operations).Pairwise fun q q' =>
      q.2.Overwrites → q'.2.Overwrites → q.1 ≠ q'.1 := by
    apply Batch.pairwise_placed
    refine List.pairwise_append.2 ⟨?_, ?_, ?_⟩
    · apply List.pairwise_of_forall_mem_list
      intro o ho o' _ i j _ _ hoverwrites
      exact absurd hoverwrites (hfits.not_overwrites ho)
    · apply (h.pairwise_writes hnamed).imp
      rintro o o' hne i j _ _ ⟨id, e, rfl⟩ ⟨id', e', rfl⟩ heq
      cases heq
      exact hne.1 _ _ _ rfl rfl
    · intro o ho o' _ i j _ _ hoverwrites
      exact absurd hoverwrites (hfits.not_overwrites ho)
  refine (hfits.overwrites_of_place_eq hc hfresh).imp₂ ?_ hupdates
  intro q q' hshared hdistinct heq
  obtain ⟨hq, hq'⟩ := hshared heq
  exact hdistinct hq hq' heq

theorem cell_unnamed {id : String} {e : Edge}
    (hunnamed : Unnamed b owner value s id e) :
    (Batch.after b.edgeContainer s p.operations).cell b.edgeContainer id =
      if replacing then none else s.cell b.edgeContainer id := by
  obtain ⟨hedge, hinvolves, hnot⟩ := hunnamed
  cases hreplacing : replacing with
  | true =>
    have hremoval : .delete id e.revision ∈ p.operations :=
      List.mem_append_left _ ((h.removals _).2 ⟨hreplacing, id, e, hedge, hinvolves, hnot, rfl⟩)
    obtain ⟨_, _, _, revision, hcell⟩ :=
      Batch.exists_cell_after b.edgeContainer (h.places hfits hc hfresh hnamed) hremoval
    exact hcell
  | false =>
    apply Batch.cell_after_of_forall_ne
    rintro q hq rfl
    obtain ⟨r, hr, _⟩ := hedge.revision_eq
    rcases h.placed_cases hfits hc hfresh hq with ⟨htrue, _⟩ | ⟨r, hr, hid, _⟩ | ⟨_, _, _, hnone, _⟩
    · rw [hreplacing] at htrue
      cases htrue
    · exact hnot r hr hid
    · rw [hr] at hnone
      cases hnone

/-- A record that the store did not have is the new edge of a reference. -/
theorem exists_created_of_cell {id : String} {e : Edge}
    (hnone : s.cell b.edgeContainer id = none)
    (hedge : (Batch.after b.edgeContainer s p.operations).HasEdge b.edgeContainer id e) :
    ∃ r ∈ value, ∃ target, r.target = some target ∧ b.Created owner r e ∧
      (id, .create (b.createdEdge owner target r)) ∈ Batch.placed s.serials p.operations := by
  by_cases hplace : ∃ q ∈ Batch.placed s.serials p.operations, q.1 = id
  · obtain ⟨⟨_, o⟩, hq, rfl⟩ := hplace
    rcases h.placed_cases hfits hc hfresh hq with
      ⟨_, e', hunnamed⟩ | ⟨_, _, _, e', hedge'⟩ | ⟨r, hr, _, _, target, htarget, rfl⟩
    · obtain ⟨stored, hstored, _⟩ := hunnamed.stored.revision_eq
      rw [hnone] at hstored
      cases hstored
    · obtain ⟨stored, hstored, _⟩ := hedge'.revision_eq
      rw [hnone] at hstored
      cases hstored
    · refine ⟨r, hr, target, htarget, ?_, hq⟩
      obtain ⟨revision, hcell⟩ := Batch.cell_after_of_mem (c := b.edgeContainer)
        (h.places hfits hc hfresh hnamed) hq
      rw [hedge.unique (.of_content hedge.isId hcell)]
      exact BoundField.created_createdEdge htarget _ _
  · have hsame : (Batch.after b.edgeContainer s p.operations).cell b.edgeContainer id =
        s.cell b.edgeContainer id :=
      Batch.cell_after_of_forall_ne fun q hq heq => hplace ⟨q, hq, heq⟩
    obtain ⟨stored, hstored, _⟩ := hedge.revision_eq
    rw [hsame, hnone] at hstored
    cases hstored

theorem exists_added {r : Reference}
    (hr : r ∈ value) (hid : r.edgeId? = none) :
    ∃ id, (∃ e, Added b owner r s (Batch.after b.edgeContainer s p.operations) id e) ∧
      ∀ id' e', Added b owner r s (Batch.after b.edgeContainer s p.operations) id' e' →
        id' = id := by
  obtain ⟨o, ho, hwrite⟩ := h.exists_writeOf hr
  obtain ⟨i, hi, hmem, revision, hcell⟩ :=
    Batch.exists_cell_after b.edgeContainer (h.places hfits hc hfresh hnamed) ho
  rw [hfits.draws_operations] at hi
  cases hwrite with
  | update hid' =>
    rw [hid] at hid'
    cases hid'
  | @create target _ htarget =>
    refine ⟨_, ⟨_, hfresh.unused i hi _ hc.isContainer_trim,
      .of_content (Ids.isId_assigned _) hcell, BoundField.created_createdEdge htarget _ _⟩, ?_⟩
    rintro id' e' ⟨hnone, hedge, hcreated⟩
    obtain ⟨r', hr', target', htarget', hcreated', hmem'⟩ :=
      h.exists_created_of_cell hfits hc hfresh hnamed hnone hedge
    have hsame : b.createdEdge owner target' r' = b.createdEdge owner target r := by
      have hsecond : target' = target := by
        rw [hcreated.secondId, Option.some.injEq] at htarget
        rw [hcreated'.secondId, Option.some.injEq] at htarget'
        exact htarget'.symm.trans htarget
      unfold BoundField.createdEdge
      rw [hsecond, ← hcreated.properties, ← hcreated'.properties]
    rw [hsame] at hmem'
    exact congrArg Prod.fst (h.eq_of_create hfits hnamed hmem' hmem rfl rfl)

theorem changed_place {path : String}
    (hchanged : Dict.get? (Batch.after b.edgeContainer s p.operations).records path ≠
      Dict.get? s.records path) :
    ∃ id, path = Path.join (Path.trim b.edgeContainer) id ∧
      ((∃ r ∈ value, r.edgeId? = some id) ∨
        (replacing = true ∧ ∃ e, Unnamed b owner value s id e) ∨
        ∃ r ∈ value, r.edgeId? = none ∧
          ∃ e, Added b owner r s (Batch.after b.edgeContainer s p.operations) id e) := by
  by_cases hplace : ∃ q ∈ Batch.placed s.serials p.operations,
      Path.join (Path.trim b.edgeContainer) q.1 = path
  · obtain ⟨⟨id, o⟩, hq, rfl⟩ := hplace
    refine ⟨id, rfl, ?_⟩
    rcases h.placed_cases hfits hc hfresh hq with
      hunnamed | ⟨r, hr, hid, _⟩ | ⟨r, hr, hid, hnone, target, htarget, rfl⟩
    · exact .inr (.inl hunnamed)
    · exact .inl ⟨r, hr, hid⟩
    · obtain ⟨revision, hcell⟩ := Batch.cell_after_of_mem (c := b.edgeContainer)
        (h.places hfits hc hfresh hnamed) hq
      exact .inr (.inr ⟨r, hr, hid, _, hnone, .of_content (hfits.isId hq) hcell,
        BoundField.created_createdEdge htarget _ _⟩)
  · exact absurd (Batch.get?_after_of_forall_ne fun q hq heq => hplace ⟨q, hq, heq⟩) hchanged

/-- **A plan makes of a store what the value says**, once its places are distinct. -/
theorem replaced :
    Replaced b replacing owner value s (Batch.after b.edgeContainer s p.operations) where
  named := by
    intro r hr id hid
    obtain ⟨o, ho, hwrite⟩ := h.exists_writeOf hr
    obtain ⟨i, _, _, revision, hcell⟩ :=
      Batch.exists_cell_after b.edgeContainer (h.places hfits hc hfresh hnamed) ho
    cases hwrite with
    | create hnone =>
      rw [hid] at hnone
      cases hnone
    | update hid' hedge hinvolves htarget =>
      rw [hid] at hid'
      cases hid'
      exact ⟨_, _, hedge, hinvolves, .of_content hedge.isId hcell,
        BoundField.rewritten_updatedEdge htarget _ _⟩
  created := fun _ hr hid => h.exists_added hfits hc hfresh hnamed hr hid
  unnamed := fun _ _ hunnamed => h.cell_unnamed hfits hc hfresh hnamed hunnamed
  elsewhere := fun _ hchanged => h.changed_place hfits hc hfresh hnamed hchanged

end Distinct

end Drawn

/-! ### What is returned -/

/-- The client form of a written edge has the target and the properties of its reference. -/
theorem form_of_writeOf {r w : Reference} {o : Operation} {t : MemoryStore}
    (hwrite : b.WriteOf owner s r o)
    (h : b.toReference owner (o.answer b.edgeContainer t) = .ok w) :
    w.target = r.target ∧ w.edgeProperties = r.edgeProperties := by
  have hplain := (Reference.plain_edgeProperties r).withoutBookkeeping_eq
  cases hwrite with
  | @create target _ htarget =>
    rw [BoundField.toReference_answer fun _ => rfl] at h
    cases h
    rw [Reference.edgeProperties_ofEdge, htarget]
    exact ⟨congrArg some (b.opposite_createdEdge owner target r), hplain⟩
  | @update id target e _ _ hinvolves htarget =>
    rw [BoundField.toReference_answer fun _ => rfl] at h
    cases h
    rw [Reference.edgeProperties_ofEdge, htarget]
    exact ⟨congrArg some (BoundField.opposite_updatedEdge target r hinvolves), hplain⟩

theorem map_answers {rs : List Reference} {g : Reference → Operation}
    (hg : ∀ r ∈ rs, b.WriteOf owner s r (g r)) {t : MemoryStore} {written : List Reference}
    (h : (Batch.answers b.edgeContainer t (rs.map g)).mapM (b.toReference owner) = .ok written) :
    written.map (fun w => (w.target, w.edgeProperties)) =
      rs.map fun r => (r.target, r.edgeProperties) := by
  induction rs generalizing t written with
  | nil =>
    cases h
    rfl
  | cons r rs ih =>
    rw [List.forall_mem_cons] at hg
    rw [List.map_cons, Batch.answers, Result.mapM_cons, Result.bind_eq_ok] at h
    obtain ⟨w, hw, h⟩ := h
    obtain ⟨ws, hws, h⟩ := Result.bind_eq_ok.1 h
    cases h
    obtain ⟨htarget, hproperties⟩ := form_of_writeOf hg.1 hw
    rw [List.map_cons, List.map_cons, htarget, hproperties, ih hg.2 hws]

theorem ordered_map {g : Reference → Operation}
    (hcreate : ∀ r ∈ value, isCreate (g r) = r.edgeId?.isNone) :
    ordered (value.map g) = (namedFirst value).map g := by
  unfold ordered namedFirst
  rw [List.filter_map, List.filter_map, List.map_append]
  congr 2
  · apply List.filter_congr
    intro r hr
    simp only [Function.comp, hcreate r hr, Option.not_isNone]
  · apply List.filter_congr
    intro r hr
    exact hcreate r hr

theorem isCreate_of_writeOf {r : Reference} {o : Operation} (h : b.WriteOf owner s r o) :
    isCreate o = r.edgeId?.isNone := by
  cases h with
  | create hid => rw [hid]; rfl
  | update hid => rw [hid]; rfl

theorem Drawn.answered (h : Drawn b replacing owner value s p) (hfits : p.Fits b.edgeContainer s)
    (hc : Path.IsAddress b.edgeContainer) (hfresh : s.FreshIds (Batch.draws p.writes))
    (hnamed : (value.filterMap Reference.edgeId?).Nodup) {written : List Reference}
    (hforms : (Batch.answers b.edgeContainer (Batch.after b.edgeContainer s p.removals)
      p.writes).mapM (b.toReference owner) = .ok written) :
    Answered b owner value (Batch.after b.edgeContainer s p.operations) written := by
  obtain ⟨g, hwrites, hg⟩ := h.writes
  constructor
  · rw [hwrites, ordered_map fun r hr => isCreate_of_writeOf (hg r hr)] at hforms
    exact map_answers (fun r hr => hg r (mem_namedFirst.1 hr)) hforms
  · intro w hw
    obtain ⟨form, rfl, hform⟩ := Result.map_of_mapM_eq_ok hforms
    obtain ⟨record, hrecord, rfl⟩ := List.mem_map.1 hw
    have hplaces := h.places hfits hc hfresh hnamed
    rw [Plan.operations, Batch.placed_append, List.pairwise_append,
      ← Batch.serials_after b.edgeContainer] at hplaces
    have hleaves : ∀ o ∈ p.writes, ∀ revision, ∃ r, o.leaves revision = some r := by
      intro o ho revision
      rcases hfits.writes o ho with ⟨e, rfl⟩ | ⟨_, _, e, _, _, rfl, _⟩
      · exact ⟨_, rfl⟩
      · exact ⟨_, rfl⟩
    obtain ⟨⟨q, hq, hid⟩, stored, hcell, hstored⟩ :=
      Batch.cell_after_of_mem_answers b.edgeContainer hplaces.2.1 hleaves hrecord
    have hisId : Path.IsId record.id := by
      rw [hid]
      apply hfits.isId
      rw [Plan.operations, Batch.placed_append]
      rw [Batch.serials_after] at hq
      exact List.mem_append_right _ hq
    rw [← Batch.after_append] at hcell
    obtain ⟨e, he, hw⟩ := BoundField.toReference_eq_ok.1 (hform record hrecord)
    rw [hstored] at he
    exact ⟨record.id, e, ⟨hisId, stored, hcell, he⟩, hw⟩

theorem replaced_of_set (hs : s.WellFormed) (hc : Path.IsAddress b.edgeContainer)
    (hnamed : (value.filterMap Reference.edgeId?).Nodup)
    (hfresh : s.FreshIds (value.countP (·.edgeId?.isNone))) {written : List Reference}
    (h : set b replacing id value s = (.ok written, s')) :
    Replaced b replacing (b.ownerPath id) value s s' := by
  obtain ⟨p, hplan, rfl, _⟩ := exists_plan_of_set hs hc hfresh h
  obtain ⟨hfits, hdraws⟩ := fits_of_answer_plan hs hc hplan
  rw [← hdraws] at hfresh
  exact (drawn_of_answer_plan hs hc hplan).replaced hfits hc hfresh hnamed

theorem answered_of_set (hs : s.WellFormed) (hc : Path.IsAddress b.edgeContainer)
    (hnamed : (value.filterMap Reference.edgeId?).Nodup)
    (hfresh : s.FreshIds (value.countP (·.edgeId?.isNone))) {written : List Reference}
    (h : set b replacing id value s = (.ok written, s')) :
    Answered b (b.ownerPath id) value s' written := by
  obtain ⟨p, hplan, rfl, hforms⟩ := exists_plan_of_set hs hc hfresh h
  obtain ⟨hfits, hdraws⟩ := fits_of_answer_plan hs hc hplan
  rw [← hdraws] at hfresh
  exact (drawn_of_answer_plan hs hc hplan).answered hfits hc hfresh hnamed hforms

/-- **The write of a collection is exact.** If no two references name the same edge, a write
    that succeeds rewrites the named edges in place, adds one edge for each other reference,
    removes the edges at the field that are not named or leaves them, and touches nothing
    else. It returns the client forms of the edges that it wrote. -/
theorem set_replaces (b : BoundField) (replacing : Bool) (id : String) (value : List Reference)
    (s s' : MemoryStore) (written : List Reference) (hs : s.WellFormed)
    (hsettings : b.settings.Accepted) (hnamed : (value.filterMap Reference.edgeId?).Nodup)
    (hfresh : s.FreshIds (value.countP (·.edgeId?.isNone)))
    (h : set b replacing id value s = (.ok written, s')) :
    Replaced b replacing (b.ownerPath id) value s s' ∧
      Answered b (b.ownerPath id) value s' written := by
  have hc : Path.IsAddress b.edgeContainer := hsettings.isAddress
  constructor
  · exact replaced_of_set hs hc hnamed hfresh h
  · exact answered_of_set hs hc hnamed hfresh h

/-- The first role of a user is kept with a new property, the second one is dropped, and a
    third one is added. -/
def exampleValue : List Reference :=
  [{ id := some "e1", target := some "managed/role/1", properties := [("grant", .str "direct")] },
    { target := some "managed/role/3" }]

theorem set_replaces_exampleValue :
    ∃ written s', set Sample.roles true "1" exampleValue Sample.store = (.ok written, s') ∧
      Replaced Sample.roles true (Sample.roles.ownerPath "1") exampleValue Sample.store s' ∧
      Answered Sample.roles (Sample.roles.ownerPath "1") exampleValue s' written := by
  have haccepted : (set Sample.roles true "1" exampleValue Sample.store).1.isOk = true := by
    decide +kernel
  rcases h : set Sample.roles true "1" exampleValue Sample.store with ⟨e | written, s'⟩
  · rw [h] at haccepted
    cases haccepted
  · exact ⟨written, s', rfl, set_replaces Sample.roles true "1" exampleValue Sample.store s' written
      Sample.wellFormed_store Sample.accepted_roles (by decide) Sample.freshIds_store h⟩

end Collection

end EdgeFields
