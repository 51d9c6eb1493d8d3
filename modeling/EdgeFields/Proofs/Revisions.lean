/-
  EdgeFields/Proofs/Revisions.lean
  ================================
  **Revisions of their own.**

  One counter serves the revisions of all records, so that in every store that operations lead
  to from the empty one (`MemoryStore.Reached`) no two records have the same revision
  (`MemoryStore.Reached.dated`). A removal that expects the revision of an edge therefore
  removes that edge or nothing, also in stores with paths that the engine would never make
  (`MemoryStore.EdgeAt.of_delete`).
-/
import EdgeFields.Proofs.OneReference
import EdgeFields.Proofs.Written

namespace EdgeFields

open MemoryStore (StoredRecord.toRecord)

namespace MemoryStore

variable {s t : MemoryStore} {c path : String} {record : Record} {e : Edge}

/-! ### Stores that operations lead to -/

/-- The stores that operations lead to from the empty one. -/
inductive Reached : MemoryStore → Prop
  | empty : Reached empty
  | create {s t : MemoryStore} {c : String} {id : Option String} {content : Json}
    {record : Record} (hs : Reached s) (h : s.create c id content = .ok (record, t)) : Reached t
  | update {s t : MemoryStore} {path : String} {expected : Option String} {content : Json}
    {record : Record} (hs : Reached s) (h : s.update path expected content = .ok (record, t)) :
    Reached t
  | delete {s t : MemoryStore} {path : String} {expected : Option String} {record : Record}
    (hs : Reached s) (h : s.delete path expected = .ok (record, t)) : Reached t

/-- Records can be put where there are none. -/
theorem Reached.put {id : String} {ms : Members} (hs : s.Reached) (hc : Path.IsContainer c)
    (hunused : Dict.contains s.records (Path.join c id) = false)
    (hplain : Record.withoutBookkeeping ms = ms) : (s.put (Path.join c id) ms).Reached := by
  have hempty : c.isEmpty = false := by
    simpa [String.isEmpty_iff] using hc.nonempty
  have hcreate : s.create c (some id) (.obj ms) =
      .ok (.ofMembers id (toString (s.revisions + 1)) ms, s.put (Path.join c id) ms) := by
    unfold MemoryStore.create
    simp only [hc.trim_eq, hempty, keep, hplain, hunused]
    rfl
  exact .create hs hcreate

/-! ### Revisions -/

/-- All records of a store are records of another one. -/
def Within (t s : MemoryStore) : Prop :=
  ∀ path r, Dict.get? t.records path = some r → Dict.get? s.records path = some r

theorem within_refl (s : MemoryStore) : s.Within s := fun _ _ h => h

theorem Within.remove (h : t.Within s) (path : String) : (t.remove path).Within s := by
  intro key r hget
  rw [get?_remove] at hget
  split at hget
  · cases hget
  · exact h key r hget

/-- Every record has a revision of its own, and none is newer than the last one given out. -/
structure Dated (s : MemoryStore) : Prop where
  le : ∀ path r, Dict.get? s.records path = some r → r.revision ≤ s.revisions
  apart : ∀ path path' r r', Dict.get? s.records path = some r →
    Dict.get? s.records path' = some r' → r.revision = r'.revision → path = path'

theorem dated_empty : empty.Dated where
  le := fun _ _ h => nomatch h
  apart := fun _ _ _ _ h => nomatch h

theorem Dated.nextSerial (hs : s.Dated) : s.nextSerial.Dated := ⟨hs.le, hs.apart⟩

theorem Dated.put (hs : s.Dated) (path : String) (fields : Members) :
    (s.put path fields).Dated := by
  have hnew : ∀ key r, Dict.get? (s.put path fields).records key = some r →
      (path = key ∧ r.revision = s.revisions + 1) ∨ Dict.get? s.records key = some r := by
    intro key r h
    rw [get?_put] at h
    split at h
    · rename_i heq
      cases h
      exact .inl ⟨heq, rfl⟩
    · exact .inr h
  constructor
  · intro key r h
    rw [revisions_put]
    rcases hnew key r h with ⟨_, hr⟩ | hold
    · exact Nat.le_of_eq hr
    · exact Nat.le_succ_of_le (hs.le key r hold)
  · intro key key' r r' h h' heq
    -- only one of two records with the same revision can be new
    rcases hnew key r h with ⟨hkey, hr⟩ | hold
    · rcases hnew key' r' h' with ⟨hkey', _⟩ | hold'
      · exact hkey.symm.trans hkey'
      · have hle := hs.le key' r' hold'
        omega
    · rcases hnew key' r' h' with ⟨_, hr'⟩ | hold'
      · have hle := hs.le key r hold
        omega
      · exact hs.apart key key' r r' hold hold' heq

theorem Dated.remove (hs : s.Dated) (path : String) : (s.remove path).Dated := by
  have hold : (s.remove path).Within s := (within_refl s).remove path
  exact ⟨fun key r h => hs.le key r (hold key r h),
    fun key key' r r' h h' => hs.apart key key' r r' (hold key r h) (hold key' r' h')⟩

/-- **Whatever operations lead to a store, its records have revisions of their own.** -/
theorem Reached.dated (hs : s.Reached) : s.Dated := by
  induction hs with
  | empty => exact dated_empty
  | create _ h ih =>
    obtain ⟨_, ms, _, _, ⟨_, rfl⟩ | ⟨_, _, rfl⟩, _⟩ := put_of_create h
    · exact ih.put _ (Record.withoutBookkeeping ms)
    · exact ih.nextSerial.put _ (Record.withoutBookkeeping ms)
  | update _ h ih =>
    obtain ⟨_, _, ms, _, _, _, _, _, _, rfl⟩ := update_eq_ok_iff.1 h
    exact ih.put _ (Record.withoutBookkeeping ms)
  | delete _ h ih =>
    obtain ⟨_, _, _, _, _, _, _, rfl⟩ := delete_eq_ok_iff.1 h
    exact ih.remove _

/-! ### What a revision tells -/

/-- A revision that was answered is met by the records of this revision. -/
theorem meets_toString {n : Nat} {r : StoredRecord} :
    Meets (some (toString n)) r ↔ r.revision = n := by
  constructor
  · rintro (h | h)
    · cases h
    · exact (Record.revision_inj (Option.some.inj h)).symm
  · rintro rfl
    exact .inr rfl

theorem EdgeAt.revision_eq (h : s.EdgeAt c path e) :
    ∃ r, Dict.get? s.records path = some r ∧ e.revision = some (toString r.revision) := by
  obtain ⟨id, r, hget, _, he⟩ := h
  exact ⟨r, hget, (Edge.ofRecord_eq_ok he).2⟩

/-- An edge is at one path. -/
theorem EdgeAt.path_eq {path' : String} (hs : s.Dated) (h : s.EdgeAt c path e)
    (h' : s.EdgeAt c path' e) : path = path' := by
  obtain ⟨r, hget, hrevision⟩ := h.revision_eq
  obtain ⟨r', hget', hrevision'⟩ := h'.revision_eq
  rw [hrevision] at hrevision'
  exact hs.apart path path' r r' hget hget' (Record.revision_inj (Option.some.inj hrevision'))

/-- **A removal at the revision of an edge removes that edge**, if it removes anything, from
    any store that holds nothing but records of the store where the edge was found. -/
theorem EdgeAt.of_delete {id : String} (hs : s.Dated) (hc : Path.IsAddress c)
    (h : s.EdgeAt c path e) (hid : e.id = some id) {u : MemoryStore} (hsub : t.Within s)
    (hdelete : t.delete (Path.join c id) e.revision = .ok (record, u)) :
    Edge.ofRecord record = .ok e := by
  obtain ⟨id₀, r₀, hget₀, hsplit₀, he⟩ := h
  obtain ⟨hid₀, hrevision₀⟩ := Edge.ofRecord_eq_ok he
  obtain rfl : id = id₀ := Option.some.inj (hid.symm.trans hid₀)
  have hisId := Path.isId_of_split? hsplit₀
  obtain ⟨c', id', r, hsplit, hget, hmeets, hrecord, _⟩ := delete_eq_ok_iff.1 hdelete
  rw [hc.split?_join hisId] at hsplit
  obtain ⟨_, rfl⟩ := Prod.mk.inj (Option.some.inj hsplit)
  have hsame : r.revision = r₀.revision := by
    rw [hrevision₀] at hmeets
    exact meets_toString.1 hmeets
  have hget' := hsub _ r hget
  have hpath := hs.apart _ _ r₀ r hget₀ hget' hsame.symm
  rw [hpath, hget'] at hget₀
  rw [hrecord, Option.some.inj hget₀]
  exact he

end MemoryStore

/-- The engine finds no edge twice. -/
theorem BoundField.nodup_of_found {b : BoundField} {owner : String} {s : MemoryStore}
    {es : List Edge} (hs : s.Dated) (h : (b.existingEdges owner).answer s = .ok es) :
    es.Nodup := by
  rw [answer_existingEdges_eq_ok, MemoryStore.related_eq_map] at h
  obtain ⟨edge, rfl, hedge⟩ := Result.map_of_mapM_eq_ok h
  have hpaths := MemoryStore.nodup_relatedPaths s b.edgeContainer owner b.field.name
  rw [List.Nodup, List.pairwise_map] at hpaths
  rw [List.map_map, List.Nodup, List.pairwise_map]
  have hat : ∀ q ∈ s.relatedPaths b.edgeContainer owner b.field.name,
      s.EdgeAt b.edgeContainer q.1 (edge q.2) := by
    intro q hq
    exact MemoryStore.edgeAt_iff.2
      ⟨q.2, (List.mem_filter.1 hq).1, hedge q.2 (List.mem_map_of_mem hq)⟩
  refine hpaths.imp_of_mem ?_
  intro q q' hq hq' hne heq
  have hq := hat q hq
  rw [show edge q.2 = edge q'.2 from heq] at hq
  exact hne (hq.path_eq hs (hat q' hq'))

end EdgeFields
