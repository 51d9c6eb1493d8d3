/-
  EdgeFields/Proofs/BatchOrder.lean
  =================================
  **Independent operations in any order.**

  Operations of a batch are independent if each of them finds what it asks for in the store before
  the batch, no two ask for one record, and the identifiers to be assigned are fresh
  (`Batch.Independent`). One operation leaves the others independent in the store behind it
  (`Batch.Independent.tail`), so all of them succeed, one after the other.  What they make of the
  store is said without their order (`Batch.CarriedOut`): the records asked for are replaced or
  gone, as many records as are created stand where there were none, and all others are what they
  were, revisions included. Revisions and assigned identifiers depend on the order.

  Nothing is assumed of the paths of the store, and identifiers may have slashes: an operation
  writes where the store finds the record.
-/
import EdgeFields.Proofs.Operations
import EdgeFields.Proofs.Rejection

namespace EdgeFields

/-! ### Entries -/

namespace Dict

variable {α : Type} {key : String} {d : Dict α} {p : String → Bool}

theorem insert_perm (h : get? d key = none) (value : α) :
    (insert key value d).Perm ((key, value) :: d) := by
  induction d with
  | nil => exact List.Perm.refl _
  | cons e d ih =>
    obtain ⟨k, v⟩ := e
    rw [get?_cons] at h
    split at h
    · cases h
    · next hne =>
      unfold insert
      split
      · exact List.Perm.refl _
      · exact ((ih h).cons _).trans (List.Perm.swap _ _ _)

/-- An entry that is left out plays no part. -/
theorem filter_insert (hp : p key = false) (value : α) (d : Dict α) :
    (insert key value d).filter (fun e => p e.1) = d.filter fun e => p e.1 := by
  induction d with
  | nil => simp [insert, hp]
  | cons e d ih =>
    obtain ⟨k, v⟩ := e
    unfold insert
    split
    · rw [List.filter_cons_of_neg (by simp [hp])]
    · split
      · next hk =>
        subst hk
        rw [List.filter_cons_of_neg (by simp [hp]), List.filter_cons_of_neg (by simp [hp])]
      · rw [List.filter_cons, List.filter_cons, ih]

theorem filter_erase (hp : p key = false) (d : Dict α) :
    (erase key d).filter (fun e => p e.1) = d.filter fun e => p e.1 := by
  unfold erase
  rw [List.filter_filter]
  refine List.filter_congr fun e _ => ?_
  by_cases he : e.1 = key <;> simp [he, hp]

end Dict

/-! ### Records that were added -/

namespace MemoryStore

/-- The contents of the records of `t` where `s` has none. -/
def addedTo (s t : MemoryStore) : List Members :=
  (t.records.filter fun e => !Dict.contains s.records e.1).map fun e => e.2.fields

variable {s t : MemoryStore} {path : String}

theorem addedTo_self (s : MemoryStore) : s.addedTo s = [] := by
  unfold addedTo
  rw [List.map_eq_nil_iff, List.filter_eq_nil_iff]
  rintro ⟨path, r⟩ hmem
  simp [Dict.contains, s.sorted.mem_iff.1 hmem]

theorem addedTo_put_of_none (hs : Dict.get? s.records path = none)
    (ht : Dict.get? t.records path = none) (fields : Members) :
    (s.addedTo (t.put path fields)).Perm (fields :: s.addedTo t) := by
  have hentries := Dict.insert_perm ht (⟨t.revisions + 1, fields⟩ : StoredRecord)
  have hadded := (hentries.filter fun e => !Dict.contains s.records e.1).map fun e => e.2.fields
  rwa [List.filter_cons_of_pos (by simp [Dict.contains, hs]), List.map_cons] at hadded

theorem addedTo_put_of_some {r : StoredRecord} (hs : Dict.get? s.records path = some r)
    (fields : Members) : s.addedTo (t.put path fields) = s.addedTo t :=
  congrArg (List.map _)
    (Dict.filter_insert (p := fun key => !Dict.contains s.records key) (by simp [Dict.contains, hs])
      _ _)

theorem addedTo_remove {r : StoredRecord} (hs : Dict.get? s.records path = some r) :
    s.addedTo (t.remove path) = s.addedTo t :=
  congrArg (List.map _)
    (Dict.filter_erase (p := fun key => !Dict.contains s.records key) (by simp [Dict.contains, hs])
      _)

end MemoryStore

/-! ### One operation -/

namespace Operation

/-- The path of the record that an operation asks for. -/
def target? (c : String) : Operation → Option String
  | create _ => none
  | update id _ _ => some (Path.trim (Path.join c id))
  | delete id _ => some (Path.trim (Path.join c id))

/-- The path that an operation writes in a store with a serial number. -/
def path (c : String) (serial : Nat) (o : Operation) : String :=
  (o.target? c).getD (Path.join (Path.trim c) (Ids.assigned serial))

/-- The content of the record that an operation adds. -/
def added? : Operation → Option Members
  | create e => some e.content
  | update _ _ _ => none
  | delete _ _ => none

/-- The store that an operation leaves if it succeeds. -/
def effect (c : String) (s : MemoryStore) (o : Operation) : MemoryStore :=
  match o with
  | create e => s.nextSerial.put (o.path c s.serials) e.content
  | update _ _ e => s.put (o.path c s.serials) e.content
  | delete _ _ => s.remove (o.path c s.serials)

/-- What an operation asks for is there, and has the revision that is expected, if one is. -/
def Ready (c : String) (s : MemoryStore) : Operation → Prop
  | create _ => Path.trim c ≠ ""
  | update id expected _ => ∃ name r, s.find (Path.join c id) = .ok (name, r) ∧
      MemoryStore.Meets expected r
  | delete id expected => ∃ name r, s.find (Path.join c id) = .ok (name, r) ∧
      MemoryStore.Meets expected r

variable {c key : String} {s : MemoryStore} {o o' : Operation} {r : StoredRecord}

theorem get?_effect (c : String) (s : MemoryStore) (o : Operation) (key : String) :
    Dict.get? (o.effect c s).records key =
      if o.path c s.serials = key then o.leaves (s.revisions + 1)
      else Dict.get? s.records key := by
  cases o with
  | create e => exact MemoryStore.get?_put _ _ _ _
  | update id expected e => exact MemoryStore.get?_put _ _ _ _
  | delete id expected => exact MemoryStore.get?_remove _ _ _

@[simp] theorem serials_effect (c : String) (s : MemoryStore) (o : Operation) :
    (o.effect c s).serials = s.serials + o.draws := by
  cases o <;> rfl

theorem Ready.exists_target (h : o.Ready c s) (htarget : o.target? c = some key) :
    ∃ r, Dict.get? s.records key = some r := by
  cases o with
  | create e => cases htarget
  | update id expected e =>
    obtain rfl := Option.some.inj htarget
    obtain ⟨_, r, hfind, _⟩ := h
    exact ⟨r, (MemoryStore.find_eq_ok_iff.1 hfind).2⟩
  | delete id expected =>
    obtain rfl := Option.some.inj htarget
    obtain ⟨_, r, hfind, _⟩ := h
    exact ⟨r, (MemoryStore.find_eq_ok_iff.1 hfind).2⟩

theorem path_cases (h : o.Ready c s) : o.target? c = some (o.path c s.serials) ∨
    ∃ e, o = create e ∧ Path.IsContainer (Path.trim c) := by
  cases o with
  | create e => exact .inr ⟨e, rfl, Path.isContainer_trim h⟩
  | update id expected e => exact .inl rfl
  | delete id expected => exact .inl rfl

theorem path_ne (h : o.Ready c s) (hfresh : s.FreshIds o.draws)
    (hr : Dict.get? s.records key = some r) (hkey : o.target? c ≠ some key) :
    o.path c s.serials ≠ key := by
  rintro rfl
  rcases path_cases h with htarget | ⟨e, rfl, hc⟩
  · exact hkey htarget
  · have hnone := hfresh.unused 0 Nat.one_pos _ hc
    exact absurd (hnone.symm.trans hr) nofun

/-- **An operation succeeds if what it asks for is there.** -/
theorem run_of_ready (h : o.Ready c s) (hfresh : s.FreshIds o.draws) :
    ∃ record, o.run c s = (.ok record, o.effect c s) := by
  cases o with
  | create e =>
    have hnone := hfresh.unused 0 Nat.one_pos _ (Path.isContainer_trim h)
    rw [Nat.add_zero] at hnone
    have hcreate := MemoryStore.create_assigned h hnone e.content
    rw [Edge.withoutBookkeeping_content] at hcreate
    have hrun := MemoryStore.writing_of_ok (f := fun s => s.create c none (.obj e.content)) hcreate
    exact ⟨_, hrun⟩
  | update id expected e =>
    obtain ⟨name, r, hfind, hmeets⟩ := h
    obtain ⟨⟨c', hsplit⟩, hget⟩ := MemoryStore.find_eq_ok_iff.1 hfind
    have hupdate := MemoryStore.update_eq_ok_iff.2
      ⟨c', name, e.content, r, hsplit, rfl, hget, hmeets, rfl, rfl⟩
    rw [Edge.withoutBookkeeping_content] at hupdate
    have hrun := MemoryStore.writing_of_ok
      (f := fun s => s.update (Path.join c id) expected (.obj e.content)) hupdate
    exact ⟨_, hrun⟩
  | delete id expected =>
    obtain ⟨name, r, hfind, hmeets⟩ := h
    obtain ⟨⟨c', hsplit⟩, hget⟩ := MemoryStore.find_eq_ok_iff.1 hfind
    have hdelete := MemoryStore.delete_eq_ok_iff.2 ⟨c', name, r, hsplit, hget, hmeets, rfl, rfl⟩
    have hrun := MemoryStore.writing_of_ok
      (f := fun s => s.delete (Path.join c id) expected) hdelete
    exact ⟨_, hrun⟩

theorem freshIds_effect {n : Nat} (h : o.Ready c s) (hfresh : s.FreshIds (o.draws + n)) :
    (o.effect c s).FreshIds n where
  unused := by
    intro i hi c' hc'
    rw [serials_effect, Nat.add_assoc]
    have hnone := hfresh.unused (o.draws + i) (by omega) c' hc'
    rw [get?_effect, if_neg, hnone]
    intro heq
    rcases path_cases h with htarget | ⟨e, rfl, hc⟩
    · obtain ⟨r, hr⟩ := h.exists_target (heq ▸ htarget)
      rw [hnone] at hr
      cases hr
    · -- two identifiers that are assigned differ
      have hid := (Path.join_inj hc hc' (Ids.isId_assigned _) (Ids.isId_assigned _)).1 heq
      have hdraws : (create e).draws = 1 := rfl
      have hindex := hfresh.distinct 0 (by omega) ((create e).draws + i) (by omega) hid.2
      omega
  distinct := by
    intro i hi j hj heq
    rw [serials_effect, Nat.add_assoc, Nat.add_assoc] at heq
    have hindex := hfresh.distinct _ (by omega) _ (by omega) heq
    omega

/-- Operations that ask for different records do not disturb each other. -/
theorem Ready.effect (h : o.Ready c s) (h' : o'.Ready c s) (hfresh : s.FreshIds o.draws)
    (hapart : ∀ path, o.target? c = some path → o'.target? c ≠ some path) :
    o'.Ready c (o.effect c s) := by
  have hkept : ∀ id name r, o'.target? c = some (Path.trim (Path.join c id)) →
      s.find (Path.join c id) = .ok (name, r) →
      (o.effect c s).find (Path.join c id) = .ok (name, r) := by
    intro id name r htarget hfind
    obtain ⟨hsplit, hget⟩ := MemoryStore.find_eq_ok_iff.1 hfind
    refine MemoryStore.find_eq_ok_iff.2 ⟨hsplit, ?_⟩
    rw [get?_effect, if_neg, hget]
    exact path_ne h hfresh hget fun htarget' => hapart _ htarget' htarget
  cases o' with
  | create e => exact h'
  | update id expected e =>
    obtain ⟨name, r, hfind, hmeets⟩ := h'
    exact ⟨name, r, hkept id name r rfl hfind, hmeets⟩
  | delete id expected =>
    obtain ⟨name, r, hfind, hmeets⟩ := h'
    exact ⟨name, r, hkept id name r rfl hfind, hmeets⟩

end Operation

/-! ### Batches -/

namespace Batch

open Operation (added?)

/-- Two operations do not ask for one record. -/
def Apart (c : String) (o o' : Operation) : Prop :=
  ∀ path, o.target? c = some path → o'.target? c ≠ some path

theorem Apart.symm {c : String} {o o' : Operation} (h : Apart c o o') : Apart c o' o :=
  fun path hpath' hpath => h path hpath hpath'

/-- Every operation is ready, no two ask for one record, and the identifiers to be assigned are
    fresh. -/
structure Independent (c : String) (s : MemoryStore) (os : List Operation) : Prop where
  ready : ∀ o ∈ os, o.Ready c s
  apart : os.Pairwise (Apart c)
  fresh : s.FreshIds (draws os)

/-- The store that a batch leaves if all its operations succeed. -/
def effect (c : String) : MemoryStore → List Operation → MemoryStore
  | s, [] => s
  | s, o :: os => effect c (o.effect c s) os

variable {c path : String} {s : MemoryStore} {o : Operation} {os os' : List Operation}
  {r : StoredRecord}

theorem draws_perm (h : os.Perm os') : draws os = draws os' := by
  induction h with
  | nil => rfl
  | cons o _ ih => rw [draws_cons, draws_cons, ih]
  | swap o o' os => rw [draws_cons, draws_cons, draws_cons, draws_cons, Nat.add_left_comm]
  | trans _ _ ih ih' => exact ih.trans ih'

theorem Independent.perm (h : Independent c s os) (hperm : os'.Perm os) : Independent c s os' where
  ready := fun o ho => h.ready o (hperm.mem_iff.1 ho)
  apart := (hperm.pairwise_iff Apart.symm).2 h.apart
  fresh := draws_perm hperm ▸ h.fresh

theorem Independent.head_ready (h : Independent c s (o :: os)) : o.Ready c s :=
  h.ready o List.mem_cons_self

theorem Independent.head_fresh (h : Independent c s (o :: os)) : s.FreshIds o.draws :=
  h.fresh.mono (Nat.le_add_right _ _)

/-- **One operation leaves the others independent.** -/
theorem Independent.tail (h : Independent c s (o :: os)) : Independent c (o.effect c s) os where
  ready := by
    intro o' ho'
    have hapart := (List.pairwise_cons.1 h.apart).1 o' ho'
    exact h.head_ready.effect (h.ready o' (List.mem_cons_of_mem _ ho')) h.head_fresh hapart
  apart := (List.pairwise_cons.1 h.apart).2
  fresh := Operation.freshIds_effect h.head_ready h.fresh

/-- The report lists the operations under their indices, and all of them succeeded. -/
structure Report.Complete (report : Report) (index : Nat) (os : List Operation) : Prop where
  operations : report.map (fun outcome => (outcome.operation, outcome.index)) = os.zipIdx index
  succeeded : ∀ outcome ∈ report, ∃ record, outcome.result = .ok record

/-- **Independent operations all succeed.** -/
theorem Independent.runFrom (h : Independent c s os) (index : Nat) :
    ∃ report, Batch.runFrom c index os s = (report, effect c s os) ∧
      Report.Complete report index os := by
  induction os generalizing s index with
  | nil => exact ⟨[], rfl, rfl, fun _ h => nomatch h⟩
  | cons o os ih =>
    obtain ⟨record, hrun⟩ := Operation.run_of_ready h.head_ready h.head_fresh
    obtain ⟨report, hreport, hcomplete⟩ := ih h.tail (index + 1)
    refine ⟨⟨index, o, .ok record⟩ :: report, ?_, ?_, ?_⟩
    · simp only [Batch.runFrom, bind, StateT.bind, ExceptT.run, hrun, hreport]
      rfl
    · rw [List.map_cons, hcomplete.operations, List.zipIdx_cons]
    · rw [List.forall_mem_cons]
      exact ⟨⟨record, rfl⟩, hcomplete.succeeded⟩

/-! ### What a batch leaves -/

theorem Independent.get?_effect (h : Independent c s os) (hr : Dict.get? s.records path = some r)
    (hpath : ∀ o ∈ os, o.target? c ≠ some path) :
    Dict.get? (effect c s os).records path = some r := by
  induction os generalizing s with
  | nil => exact hr
  | cons o os ih =>
    rw [List.forall_mem_cons] at hpath
    refine ih h.tail ?_ hpath.2
    rw [Operation.get?_effect, if_neg (Operation.path_ne h.head_ready h.head_fresh hr hpath.1), hr]

/-- A record where there was none stands under an identifier that was assigned. -/
theorem Independent.exists_assigned (h : Independent c s os)
    (hnone : Dict.get? s.records path = none)
    (hr : Dict.get? (effect c s os).records path = some r) :
    Path.IsContainer (Path.trim c) ∧
      ∃ i < draws os, path = Path.join (Path.trim c) (Ids.assigned (s.serials + i)) := by
  induction os generalizing s with
  | nil => exact absurd (hnone.symm.trans hr) nofun
  | cons o os ih =>
    rw [draws_cons]
    by_cases hpath : o.path c s.serials = path
    · subst hpath
      rcases Operation.path_cases h.head_ready with htarget | ⟨e, rfl, hc⟩
      · obtain ⟨r', hr'⟩ := h.head_ready.exists_target htarget
        exact absurd (hnone.symm.trans hr') nofun
      · exact ⟨hc, 0, Nat.add_pos_left Nat.one_pos _, rfl⟩
    · have hnone' : Dict.get? (o.effect c s).records path = none := by
        rw [Operation.get?_effect, if_neg hpath, hnone]
      obtain ⟨hc, i, hi, heq⟩ := ih h.tail hnone' hr
      rw [Operation.serials_effect, Nat.add_assoc] at heq
      exact ⟨hc, o.draws + i, by omega, heq⟩

theorem Independent.exists_updated (h : Independent c s os) {id : String}
    {expected : Option String} {e : Edge} (hmem : .update id expected e ∈ os) :
    ∃ revision, Dict.get? (effect c s os).records (Path.trim (Path.join c id)) =
      some ⟨revision, e.content⟩ := by
  induction os generalizing s with
  | nil => cases hmem
  | cons o os ih =>
    rcases List.mem_cons.1 hmem with rfl | hmem
    · have hafter : Dict.get? ((Operation.update id expected e).effect c s).records
          (Path.trim (Path.join c id)) = some ⟨s.revisions + 1, e.content⟩ := by
        rw [Operation.get?_effect]
        exact if_pos rfl
      -- no later operation asks for the record
      refine ⟨_, h.tail.get?_effect hafter fun o' ho' => ?_⟩
      exact (List.pairwise_cons.1 h.apart).1 o' ho' _ rfl
    · exact ih h.tail hmem

theorem Independent.get?_deleted (h : Independent c s os) {id : String}
    {expected : Option String} (hmem : .delete id expected ∈ os) :
    Dict.get? (effect c s os).records (Path.trim (Path.join c id)) = none := by
  induction os generalizing s with
  | nil => cases hmem
  | cons o os ih =>
    rcases List.mem_cons.1 hmem with rfl | hmem
    · have hafter : Dict.get? ((Operation.delete id expected).effect c s).records
          (Path.trim (Path.join c id)) = none := by
        rw [Operation.get?_effect]
        exact if_pos rfl
      -- a record there would stand under a fresh identifier, where the deleted one stood
      refine Option.eq_none_iff_forall_ne_some.2 fun r hr => ?_
      obtain ⟨hc, i, hi, heq⟩ := h.tail.exists_assigned hafter hr
      obtain ⟨r', hr'⟩ := h.head_ready.exists_target rfl
      have hnone := h.fresh.unused i (by rw [draws_cons]; omega) _ hc
      rw [heq, Operation.serials_effect] at hr'
      exact absurd (hnone.symm.trans hr') nofun
    · exact ih h.tail hmem

theorem Independent.addedTo_effect (h : Independent c s os) (base : MemoryStore)
    (hkept : ∀ o ∈ os, ∀ path, o.target? c = some path → ∃ r, Dict.get? base.records path = some r)
    (hnew : ∀ i < draws os, Path.IsContainer (Path.trim c) →
      Dict.get? base.records (Path.join (Path.trim c) (Ids.assigned (s.serials + i))) = none) :
    (base.addedTo (effect c s os)).Perm (os.filterMap added? ++ base.addedTo s) := by
  -- `base` is the store before the batch, and `s` already holds what was created so far
  induction os generalizing s with
  | nil => exact List.Perm.refl _
  | cons o os ih =>
    rw [List.forall_mem_cons] at hkept
    have hstep : (base.addedTo (o.effect c s)).Perm ((added? o).toList ++ base.addedTo s) := by
      cases o with
      | create e =>
        have hc : Path.IsContainer (Path.trim c) := Path.isContainer_trim h.head_ready
        have hdraws : 0 < draws (.create e :: os) := by
          rw [draws_cons]
          exact Nat.add_pos_left Nat.one_pos _
        have hbase := hnew 0 hdraws hc
        have hnone := h.fresh.unused 0 hdraws _ hc
        exact MemoryStore.addedTo_put_of_none (t := s.nextSerial) hbase hnone e.content
      | update id expected e =>
        obtain ⟨r, hr⟩ := hkept.1 _ rfl
        exact List.Perm.of_eq (MemoryStore.addedTo_put_of_some hr e.content)
      | delete id expected =>
        obtain ⟨r, hr⟩ := hkept.1 _ rfl
        exact List.Perm.of_eq (MemoryStore.addedTo_remove hr)
    have hrest := ih h.tail hkept.2 (by
      intro i hi hc
      rw [Operation.serials_effect, Nat.add_assoc]
      exact hnew (o.draws + i) (by rw [draws_cons]; omega) hc)
    have hcons : (o :: os).filterMap added? = (added? o).toList ++ os.filterMap added? := by
      cases o <;> rfl
    rw [hcons, List.append_assoc]
    exact (hrest.trans (hstep.append_left _)).trans (List.perm_append_comm_assoc _ _ _)

/-- A store `t` is what the operations make of `s`, apart from revisions and assigned
    identifiers. -/
structure CarriedOut (c : String) (os : List Operation) (s t : MemoryStore) : Prop where
  untouched : ∀ path r, Dict.get? s.records path = some r →
    (∀ o ∈ os, o.target? c ≠ some path) → Dict.get? t.records path = some r
  updated : ∀ id expected e, Operation.update id expected e ∈ os →
    ∃ revision, Dict.get? t.records (Path.trim (Path.join c id)) = some ⟨revision, e.content⟩
  deleted : ∀ id expected, Operation.delete id expected ∈ os →
    Dict.get? t.records (Path.trim (Path.join c id)) = none
  created : (s.addedTo t).Perm (os.filterMap added?)
  assigned : ∀ path, Dict.get? s.records path = none → ∀ r, Dict.get? t.records path = some r →
    ∃ i < draws os, path = Path.join (Path.trim c) (Ids.assigned (s.serials + i))

/-- **What independent operations leave.** -/
theorem Independent.carriedOut (h : Independent c s os) : CarriedOut c os s (effect c s os) where
  untouched := fun path r hr hpath => h.get?_effect hr hpath
  updated := fun id expected e hmem => h.exists_updated hmem
  deleted := fun id expected hmem => h.get?_deleted hmem
  created := by
    have hadded := h.addedTo_effect s
      (fun o ho path htarget => (h.ready o ho).exists_target htarget)
      (fun i hi hc => h.fresh.unused i hi _ hc)
    rwa [MemoryStore.addedTo_self, List.append_nil] at hadded
  assigned := fun path hnone r hr => (h.exists_assigned hnone hr).2

theorem CarriedOut.perm {t : MemoryStore} (h : CarriedOut c os' s t) (hperm : os'.Perm os) :
    CarriedOut c os s t where
  untouched := fun path r hr hpath =>
    h.untouched path r hr fun o ho => hpath o (hperm.mem_iff.1 ho)
  updated := fun id expected e hmem => h.updated id expected e (hperm.mem_iff.2 hmem)
  deleted := fun id expected hmem => h.deleted id expected (hperm.mem_iff.2 hmem)
  created := h.created.trans (hperm.filterMap added?)
  assigned := draws_perm hperm ▸ h.assigned

/-- **The order of independent operations does not matter.**  In any two orders, and with any
    numbers of operations in flight, all of them succeed, and the stores that they leave differ in
    revisions and assigned identifiers only. -/
theorem run_perm_of_independent (h : Independent c s os) {os₁ os₂ : List Operation}
    (h₁ : os₁.Perm os) (h₂ : os₂.Perm os) (width₁ width₂ : Nat) {limit : Option Nat}
    (hlimit : ∀ n, limit = some n → os.length ≤ n) :
    ∃ report₁ t₁ report₂ t₂,
      run c width₁ limit os₁ s = (.ok report₁, t₁) ∧ Report.Complete report₁ 0 os₁ ∧
      run c width₂ limit os₂ s = (.ok report₂, t₂) ∧ Report.Complete report₂ 0 os₂ ∧
      CarriedOut c os s t₁ ∧ CarriedOut c os s t₂ ∧ (s.addedTo t₁).Perm (s.addedTo t₂) := by
  have hrun : ∀ {os'} width, os'.Perm os → ∃ report t, run c width limit os' s = (.ok report, t) ∧
      Report.Complete report 0 os' ∧ CarriedOut c os s t := by
    intro os' width hperm
    have hindependent := h.perm hperm
    obtain ⟨report, hreport, hcomplete⟩ := hindependent.runFrom 0
    refine ⟨report, _, ?_, hcomplete, hindependent.carriedOut.perm hperm⟩
    have hfits : ∀ n, limit = some n → os'.length ≤ n := by
      intro n hn
      rw [hperm.length_eq]
      exact hlimit n hn
    rw [run_eq_runFrom hfits, hreport]
  obtain ⟨report₁, t₁, hrun₁, hcomplete₁, hcarried₁⟩ := hrun width₁ h₁
  obtain ⟨report₂, t₂, hrun₂, hcomplete₂, hcarried₂⟩ := hrun width₂ h₂
  exact ⟨report₁, t₁, report₂, t₂, hrun₁, hcomplete₁, hrun₂, hcomplete₂, hcarried₁, hcarried₂,
    hcarried₁.created.trans hcarried₂.created.symm⟩

end Batch

/-- One edge is created, one replaced and one deleted. -/
def Sample.threeWrites : List Operation :=
  [.create Sample.assigned, .update "e1" none Sample.joined, .delete "e2" (some "6")]

namespace Batch

/-- The three writes in turn, and in the opposite order one at a time. -/
theorem run_perm_of_independent_threeWrites :
    Independent "repo/relationships" Sample.store Sample.threeWrites ∧
    ∃ report₁ t₁ report₂ t₂,
      run "repo/relationships" 16 (some 3) Sample.threeWrites Sample.store = (.ok report₁, t₁) ∧
      run "repo/relationships" 1 (some 3) Sample.threeWrites.reverse Sample.store =
        (.ok report₂, t₂) ∧
      CarriedOut "repo/relationships" Sample.threeWrites Sample.store t₁ ∧
      CarriedOut "repo/relationships" Sample.threeWrites Sample.store t₂ := by
  have hindependent : Independent "repo/relationships" Sample.store Sample.threeWrites := by
    refine ⟨?_, ?_, Sample.freshIds_store⟩
    · simp only [Sample.threeWrites, List.forall_mem_cons]
      refine ⟨(by decide : Path.trim "repo/relationships" ≠ ""), ?_, ?_, nofun⟩
      · exact ⟨_, _, rfl, .inl rfl⟩
      · exact ⟨_, _, rfl, .inr rfl⟩
    · simp only [Sample.threeWrites, List.pairwise_cons, List.forall_mem_cons]
      refine ⟨⟨nofun, nofun, nofun⟩, ⟨?_, nofun⟩, nofun, .nil⟩
      intro path hpath hpath'
      exact absurd (hpath.trans hpath'.symm) (by decide)
  obtain ⟨report₁, t₁, report₂, t₂, hrun₁, _, hrun₂, _, hcarried₁, hcarried₂, _⟩ :=
    run_perm_of_independent hindependent (List.Perm.refl _) (List.reverse_perm _) 16 1
      (by decide : ∀ n, some 3 = some n → Sample.threeWrites.length ≤ n)
  exact ⟨hindependent, report₁, t₁, report₂, t₂, hrun₁, hrun₂, hcarried₁, hcarried₂⟩

end Batch

end EdgeFields
