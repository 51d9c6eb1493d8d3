/-
  EdgeFields/Proofs/Memory.lean
  =============================
  **What the operations of the memory store do.**

  A store is seen through its cells: the record under an identifier of a container
  (`MemoryStore.cell`). In a well-formed store every record is a cell, since its path was
  made of a trimmed container and an identifier without slashes. Creation, replacement
  and removal keep stores well formed; their laws say what becomes of every path. Each
  law also says when the operation succeeds.

  The store assigns identifiers by serial number. `MemoryStore.FreshIds` says of the next
  few of them that they differ from each other and that no record bears them.
-/
import EdgeFields.Proofs.Dict
import EdgeFields.Proofs.Path
import EdgeFields.Store.Memory

namespace EdgeFields

/-! ### Bookkeeping -/

namespace Record

theorem withoutBookkeeping_eq_self {ms : Members} (hid : Dict.get? ms idKey = none)
    (hrev : Dict.get? ms revisionKey = none) : withoutBookkeeping ms = ms := by
  unfold withoutBookkeeping
  rw [Dict.erase_eq_self hid, Dict.erase_eq_self hrev]

theorem get?_withBookkeeping {id revision key : String} {ms : Members} (hid : key ≠ idKey)
    (hrev : key ≠ revisionKey) :
    Dict.get? (withBookkeeping id revision ms) key = Dict.get? ms key := by
  unfold withBookkeeping
  rw [Dict.get?_insert_of_ne (Ne.symm hrev), Dict.get?_insert_of_ne (Ne.symm hid)]

theorem get?_withBookkeeping_id (id revision : String) (ms : Members) :
    Dict.get? (withBookkeeping id revision ms) idKey = some (.str id) := by
  unfold withBookkeeping
  rw [Dict.get?_insert_of_ne (by decide), Dict.get?_insert_self]

end Record

namespace MemoryStore

variable {s : MemoryStore} {c id path : String}

/-! ### Cells -/

/-- The record under an identifier of a container. -/
def cell (s : MemoryStore) (c id : String) : Option StoredRecord :=
  Dict.get? s.records (Path.join (Path.trim c) id)

/-- Every record lies under an identifier without slashes in a trimmed container. -/
def WellFormed (s : MemoryStore) : Prop :=
  ∀ path r, Dict.get? s.records path = some r →
    ∃ c id, Path.IsContainer c ∧ Path.IsId id ∧ path = Path.join c id

theorem wellFormed_empty : WellFormed empty := by
  intro path r h
  simp [empty] at h

@[simp] theorem get?_put (s : MemoryStore) (path key : String) (fields : Members) :
    Dict.get? (s.put path fields).records key =
      if path = key then some ⟨s.revisions + 1, fields⟩ else Dict.get? s.records key :=
  Dict.get?_insert _ _ _ _

@[simp] theorem get?_remove (s : MemoryStore) (path key : String) :
    Dict.get? (s.remove path).records key =
      if path = key then none else Dict.get? s.records key :=
  Dict.get?_erase _ _ _

@[simp] theorem revisions_put (s : MemoryStore) (path : String) (fields : Members) :
    (s.put path fields).revisions = s.revisions + 1 := rfl

@[simp] theorem serials_put (s : MemoryStore) (path : String) (fields : Members) :
    (s.put path fields).serials = s.serials := rfl

@[simp] theorem revisions_remove (s : MemoryStore) (path : String) :
    (s.remove path).revisions = s.revisions := rfl

@[simp] theorem serials_remove (s : MemoryStore) (path : String) :
    (s.remove path).serials = s.serials := rfl

theorem WellFormed.put (hs : s.WellFormed) (hc : Path.IsContainer c) (hid : Path.IsId id)
    (fields : Members) : (s.put (Path.join c id) fields).WellFormed := by
  intro path r h
  rw [get?_put] at h
  split at h
  · rename_i heq
    exact ⟨c, id, hc, hid, heq.symm⟩
  · exact hs path r h

theorem WellFormed.remove (hs : s.WellFormed) (path : String) : (s.remove path).WellFormed := by
  intro key r h
  rw [get?_remove] at h
  split at h
  · cases h
  · exact hs key r h

/-! ### Operations on single records -/

theorem find_join (hc : Path.IsAddress c) (hid : Path.IsId id) {r : StoredRecord}
    (h : s.cell c id = some r) : s.find (Path.join c id) = .ok (id, r) := by
  unfold cell at h
  unfold find
  rw [hc.split?_join hid, hc.trim_join hid]
  simp only [h]

/-- An expected revision that a record meets. -/
def Meets (expected : Option String) (r : StoredRecord) : Prop :=
  expected = none ∨ expected = some (toString r.revision)

theorem checkRevision_of_meets {expected : Option String} {r : StoredRecord}
    (h : Meets expected r) : checkRevision path expected r = .ok () := by
  rcases h with rfl | rfl
  · rfl
  · simp [checkRevision]

theorem update_cell (hc : Path.IsAddress c) (hid : Path.IsId id) {r : StoredRecord}
    (h : s.cell c id = some r) {expected : Option String} (he : Meets expected r) (ms : Members) :
    s.update (Path.join c id) expected (.obj ms) =
      .ok (.ofMembers id (toString (s.revisions + 1)) (Record.withoutBookkeeping ms),
        s.put (Path.join (Path.trim c) id) (Record.withoutBookkeeping ms)) := by
  unfold update
  rw [hc.split?_join hid, find_join hc hid h, hc.trim_join hid]
  simp only [keep, Option.isNone_some, bind, Except.bind, checkRevision_of_meets he]
  rfl

theorem delete_cell (hc : Path.IsAddress c) (hid : Path.IsId id) {r : StoredRecord}
    (h : s.cell c id = some r) {expected : Option String} (he : Meets expected r) :
    s.delete (Path.join c id) expected =
      .ok (StoredRecord.toRecord r id, s.remove (Path.join (Path.trim c) id)) := by
  unfold delete
  rw [find_join hc hid h, hc.trim_join hid]
  simp only [bind, Except.bind, checkRevision_of_meets he]
  rfl

/-- The store that has given out its next serial number. -/
def nextSerial (s : MemoryStore) : MemoryStore := { s with serials := s.serials + 1 }

theorem create_assigned (hc : Path.trim c ≠ "") (h : s.cell c (Ids.assigned s.serials) = none)
    (ms : Members) :
    s.create c none (.obj ms) =
      .ok (.ofMembers (Ids.assigned s.serials) (toString (s.revisions + 1))
          (Record.withoutBookkeeping ms),
        s.nextSerial.put (Path.join (Path.trim c) (Ids.assigned s.serials))
          (Record.withoutBookkeeping ms)) := by
  unfold cell at h
  have hempty : (Path.trim c).isEmpty = false := by simpa [String.isEmpty_iff] using hc
  have hcontains : Dict.contains s.records
      (Path.join (Path.trim c) (Ids.assigned s.serials)) = false := by
    simp [Dict.contains, h]
  unfold create
  simp only [hempty, keep, hcontains]
  rfl

theorem writing_of_ok {α : Type} {f : MemoryStore → Except StoreError (α × MemoryStore)}
    {s' : MemoryStore} {a : α} (h : f s = .ok (a, s')) : writing f s = (.ok a, s') := by
  unfold writing
  rw [h]

/-! ### Assigned identifiers -/

/-- The next `count` identifiers that the store assigns differ from each other, and no
    record bears one of them. -/
structure FreshIds (s : MemoryStore) (count : Nat) : Prop where
  unused : ∀ i < count, ∀ c, Path.IsContainer c →
    Dict.get? s.records (Path.join c (Ids.assigned (s.serials + i))) = none
  distinct : ∀ i < count, ∀ j < count,
    Ids.assigned (s.serials + i) = Ids.assigned (s.serials + j) → i = j

theorem FreshIds.mono {m n : Nat} (h : s.FreshIds n) (hle : m ≤ n) : s.FreshIds m where
  unused := fun i hi => h.unused i (Nat.lt_of_lt_of_le hi hle)
  distinct := fun i hi j hj =>
    h.distinct i (Nat.lt_of_lt_of_le hi hle) j (Nat.lt_of_lt_of_le hj hle)

theorem freshIds_zero (s : MemoryStore) : s.FreshIds 0 where
  unused := fun _ hi => absurd hi (Nat.not_lt_zero _)
  distinct := fun _ hi => absurd hi (Nat.not_lt_zero _)

theorem FreshIds.ne {n i : Nat} (h : s.FreshIds n) (hc : Path.IsAddress c) {r : StoredRecord}
    (hr : s.cell c id = some r) (hi : i < n) : Ids.assigned (s.serials + i) ≠ id := by
  intro heq
  have hnone := h.unused i hi _ hc.isContainer_trim
  unfold cell at hr
  rw [heq, hr] at hnone
  cases hnone

/-- A record under another identifier leaves identifiers fresh. -/
theorem FreshIds.put_of_ne {n : Nat} (h : s.FreshIds n) (hc : Path.IsContainer c)
    (hid : Path.IsId id) (hne : ∀ i < n, id ≠ Ids.assigned (s.serials + i)) (fields : Members) :
    (s.put (Path.join c id) fields).FreshIds n where
  unused := by
    intro i hi c' hc'
    rw [get?_put, if_neg]
    · exact h.unused i hi c' hc'
    · intro heq
      exact hne i hi ((Path.join_inj hc hc' hid (Ids.isId_assigned _)).1 heq).2
  distinct := h.distinct

theorem freshIds_empty : empty.FreshIds 1 where
  unused := fun _ _ _ _ => rfl
  distinct := fun _ _ _ _ _ => by omega

/-! ### Listing a container -/

/-- The records of a container with their paths. -/
def listed (s : MemoryStore) (name : String) : List (String × Record) :=
  s.records.filterMap fun (path, r) =>
    match Path.split? path with
    | some (c, id) =>
      if c = Path.trim name then some (path, StoredRecord.toRecord r id) else none
    | none => none

theorem container_eq_map_listed (s : MemoryStore) (name : String) :
    s.container name = (s.listed name).map (·.2) := by
  unfold container listed
  induction s.records with
  | nil => rfl
  | cons e es ih =>
    obtain ⟨path, r⟩ := e
    rw [List.filterMap_cons, List.filterMap_cons, ih]
    dsimp only
    rcases Path.split? path with _ | ⟨c, id⟩
    · rfl
    · by_cases hname : c = Path.trim name
      · simp only [if_pos hname, List.map_cons]
      · simp only [if_neg hname]

theorem mem_listed {record : Record} :
    (path, record) ∈ s.listed c ↔ ∃ id r, Dict.get? s.records path = some r ∧
      Path.split? path = some (Path.trim c, id) ∧ record = StoredRecord.toRecord r id := by
  unfold listed
  rw [List.mem_filterMap]
  constructor
  · rintro ⟨⟨path', r⟩, hmem, h⟩
    dsimp only at h
    split at h
    · rename_i hsplit
      split at h
      · rename_i heq
        cases h
        exact ⟨_, r, s.sorted.mem_iff.1 hmem, heq ▸ hsplit, rfl⟩
      · cases h
    · cases h
  · rintro ⟨id, r, hget, hsplit, rfl⟩
    refine ⟨(path, r), s.sorted.mem_iff.2 hget, ?_⟩
    simp [hsplit]

/-- No path is listed twice. -/
theorem nodup_listed (s : MemoryStore) (name : String) : ((s.listed name).map (·.1)).Nodup := by
  have hsub : ((s.listed name).map (·.1)).Sublist (s.records.map (·.1)) := by
    unfold listed
    induction s.records with
    | nil => exact .slnil
    | cons e es ih =>
      rw [List.filterMap_cons]
      split
      · exact ih.cons _
      · rename_i heq
        dsimp only at heq
        split at heq
        · split at heq
          · cases heq
            exact ih.cons_cons _
          · cases heq
        · cases heq
  have hsorted := s.sorted
  unfold Dict.Sorted at hsorted
  refine List.Pairwise.sublist hsub (hsorted.imp ?_)
  rintro path _ hlt rfl
  exact String.lt_irrefl _ hlt

/-- The records of a container are those whose paths are split into it. -/
theorem mem_container_iff {record : Record} :
    record ∈ s.container c ↔ ∃ path id r, Dict.get? s.records path = some r ∧
      Path.split? path = some (Path.trim c, id) ∧ record = StoredRecord.toRecord r id := by
  rw [container_eq_map_listed, List.mem_map]
  constructor
  · rintro ⟨⟨path, record⟩, hmem, rfl⟩
    exact ⟨path, mem_listed.1 hmem⟩
  · rintro ⟨path, h⟩
    exact ⟨(path, record), mem_listed.2 h, rfl⟩

theorem WellFormed.join_of_split? (hs : s.WellFormed) {path c' : String} {r : StoredRecord}
    (hget : Dict.get? s.records path = some r) (h : Path.split? path = some (c', id)) :
    Path.IsId id ∧ path = Path.join c' id := by
  obtain ⟨_, _, hc, hid, rfl⟩ := hs path r hget
  rw [Path.split?_join hc hid] at h
  cases h
  exact ⟨hid, rfl⟩

theorem mem_container (hs : s.WellFormed) (hc : Path.IsContainer (Path.trim c)) {record : Record} :
    record ∈ s.container c ↔
      ∃ id r, Path.IsId id ∧ s.cell c id = some r ∧ record = StoredRecord.toRecord r id := by
  rw [mem_container_iff]
  constructor
  · rintro ⟨path, id, r, hget, hsplit, rfl⟩
    obtain ⟨hid, rfl⟩ := hs.join_of_split? hget hsplit
    exact ⟨id, r, hid, hget, rfl⟩
  · rintro ⟨id, r, hid, hget, rfl⟩
    exact ⟨_, id, r, hget, Path.split?_join hc hid, rfl⟩

theorem pairwise_container (hs : s.WellFormed) (c : String) :
    (s.container c).Pairwise (fun r r' => r.id ≠ r'.id) := by
  have hpaths := nodup_listed s c
  rw [List.Nodup, List.pairwise_map] at hpaths
  rw [container_eq_map_listed, List.pairwise_map]
  refine hpaths.imp_of_mem ?_
  rintro ⟨path, record⟩ ⟨path', record'⟩ hmem hmem' hne hsame
  obtain ⟨id, r, hget, hsplit, rfl⟩ := mem_listed.1 hmem
  obtain ⟨id', r', hget', hsplit', rfl⟩ := mem_listed.1 hmem'
  obtain ⟨_, rfl⟩ := hs.join_of_split? hget hsplit
  obtain ⟨_, rfl⟩ := hs.join_of_split? hget' hsplit'
  exact hne (congrArg (Path.join (Path.trim c)) hsame)

end MemoryStore

end EdgeFields
