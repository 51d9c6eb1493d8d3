/-
  EdgeFields/Proofs/History.lean
  ==============================
  **Calls of the memory store, one after another.**

  A run is a list of calls.  What a call that succeeds can do is said once
  (`MemoryStore.Effect`): it puts one record at the next revision, or it removes one, or it only
  reads.  Revisions therefore never repeat, and a record keeps the revision it was written at up
  to the next replacement or removal (`MemoryStore.held_after`).  From then on no record under
  its path has that revision any more, not even one that is created there again
  (`MemoryStore.lost_after`).

  Together: an expected revision is met exactly as long as nobody has changed the record that it
  was answered for (`MemoryStore.revision_names_write`).  That is all a removal needs; a
  replacement is refused besides when its content is no object.
-/
import EdgeFields.Proofs.Revisions
import EdgeFields.Store.Monitored

namespace EdgeFields

open MemoryStore (StoredRecord.toRecord)

/-! ### Calls -/

/-- What a call answers. -/
inductive StoreAnswer where
  | record (record : Record)
  | found (results : QueryResults)

/-- A computation with its answer turned into another one. -/
def StoreAnswer.of {α : Type} (f : α → StoreAnswer) (m : StoreM MemoryStore α) :
    StoreM MemoryStore StoreAnswer :=
  fun s => ((m s).1.map f, (m s).2)

def StoreCall.run : StoreCall → StoreM MemoryStore StoreAnswer
  | create container id content => StoreAnswer.of .record (Store.create container id content)
  | read path => StoreAnswer.of .record (Store.read path)
  | update path expected content => StoreAnswer.of .record (Store.update path expected content)
  | delete path expected => StoreAnswer.of .record (Store.delete path expected)
  | query container request => StoreAnswer.of .found (Store.query container request)

/-- The call gives no record an identifier that cannot stand in a path. -/
def StoreCall.Named : StoreCall → Prop
  | create _ (some id) _ => Path.IsId id
  | _ => True

/-- A call with what it came to. -/
structure StoreEvent where
  call : StoreCall
  outcome : Except StoreError StoreAnswer

namespace StoreEvent

/-- The path that a creation or a replacement has written, and the revision that it answered. -/
def written? : StoreEvent → Option (String × String)
  | ⟨.create c _ _, .ok (.record r)⟩ => some (Path.join (Path.trim c) r.id, r.revision)
  | ⟨.update path _ _, .ok (.record r)⟩ => some (Path.trim path, r.revision)
  | _ => none

/-- The path whose record a replacement or a removal has changed. -/
def changed? : StoreEvent → Option String
  | ⟨.update path _ _, .ok _⟩ => some (Path.trim path)
  | ⟨.delete path _, .ok _⟩ => some (Path.trim path)
  | _ => none

end StoreEvent

namespace MemoryStore

variable {s t : MemoryStore} {c path p : String} {record : Record} {call : StoreCall}
  {answer : StoreAnswer} {calls : List StoreCall} {n : Nat} {r : StoredRecord}

/-- The store after calls. -/
def after (s : MemoryStore) : List StoreCall → MemoryStore
  | [] => s
  | call :: calls => after (call.run s).2 calls

/-- Calls with what they come to. -/
def events (s : MemoryStore) : List StoreCall → List StoreEvent
  | [] => []
  | call :: calls => ⟨call, (call.run s).1⟩ :: events (call.run s).2 calls

/-- The paths that calls write, with the revisions that they answer. -/
def written (s : MemoryStore) (calls : List StoreCall) : List (String × String) :=
  (s.events calls).filterMap StoreEvent.written?

/-- The paths of the records that calls replace or remove. -/
def changed (s : MemoryStore) (calls : List StoreCall) : List String :=
  (s.events calls).filterMap StoreEvent.changed?

/-- The call succeeds. -/
def Accepts (s : MemoryStore) (call : StoreCall) : Prop := ∃ answer, (call.run s).1 = .ok answer

theorem after_append (s : MemoryStore) (calls calls' : List StoreCall) :
    s.after (calls ++ calls') = (s.after calls).after calls' := by
  induction calls generalizing s with
  | nil => rfl
  | cons call calls ih => exact ih _

/-! ### What a call does -/

/-- What a call that succeeds answers and leaves. -/
inductive Effect (s : MemoryStore) : StoreCall → StoreAnswer → MemoryStore → Prop
  | created {c name : String} {id : Option String} {ms : Members} {u : MemoryStore}
    (hc : Path.trim c ≠ "")
    (hname : id = some name ∧ u = s ∨ id = none ∧ Path.IsId name ∧ u = s.nextSerial)
    (hunused : Dict.get? s.records (Path.join (Path.trim c) name) = none) :
    Effect s (.create c id (.obj ms))
      (.record (.ofMembers name (toString (s.revisions + 1)) (Record.withoutBookkeeping ms)))
      (u.put (Path.join (Path.trim c) name) (Record.withoutBookkeeping ms))
  | updated {path c id : String} {expected : Option String} {ms : Members} {r : StoredRecord}
    (hsplit : Path.split? path = some (c, id))
    (hget : Dict.get? s.records (Path.trim path) = some r) :
    Effect s (.update path expected (.obj ms))
      (.record (.ofMembers id (toString (s.revisions + 1)) (Record.withoutBookkeeping ms)))
      (s.put (Path.trim path) (Record.withoutBookkeeping ms))
  | deleted {path c id : String} {expected : Option String} {r : StoredRecord}
    (hsplit : Path.split? path = some (c, id))
    (hget : Dict.get? s.records (Path.trim path) = some r) :
    Effect s (.delete path expected) (.record (StoredRecord.toRecord r id))
      (s.remove (Path.trim path))
  | read {path : String} {record : Record} : Effect s (.read path) (.record record) s
  | queried {c : String} {request : Request} {results : QueryResults} :
    Effect s (.query c request) (.found results) s

theorem of_writing {α : Type} (f : α → StoreAnswer)
    (g : MemoryStore → Except StoreError (α × MemoryStore)) (s : MemoryStore) :
    (∃ a t, g s = .ok (a, t) ∧ StoreAnswer.of f (writing g) s = (.ok (f a), t)) ∨
      ∃ e, g s = .error e ∧ StoreAnswer.of f (writing g) s = (.error e, s) := by
  unfold StoreAnswer.of writing
  cases g s with
  | ok x => exact .inl ⟨x.1, x.2, rfl, rfl⟩
  | error e => exact .inr ⟨e, rfl, rfl⟩

theorem of_reading {α : Type} (f : α → StoreAnswer) (g : MemoryStore → Except StoreError α)
    (s : MemoryStore) :
    (∃ a, g s = .ok a ∧ StoreAnswer.of f (reading g) s = (.ok (f a), s)) ∨
      ∃ e, g s = .error e ∧ StoreAnswer.of f (reading g) s = (.error e, s) := by
  unfold StoreAnswer.of reading
  cases g s with
  | ok a => exact .inl ⟨a, rfl, rfl⟩
  | error e => exact .inr ⟨e, rfl, rfl⟩

/-- **A call succeeds with its effect, or it fails and leaves the store as it is.** -/
theorem run_cases (call : StoreCall) (s : MemoryStore) :
    (∃ answer t, call.run s = (.ok answer, t) ∧ Effect s call answer t) ∨
      ∃ e, call.run s = (.error e, s) := by
  cases call with
  | create c id content =>
    rcases of_writing .record (fun s => s.create c id content) s with
      ⟨record, t, hcreate, hrun⟩ | ⟨e, _, hrun⟩
    · refine .inl ⟨_, t, hrun, ?_⟩
      obtain ⟨name, ms, hc, rfl, hname, hunused, rfl⟩ := put_of_create hcreate
      rcases hname with ⟨rfl, rfl⟩ | ⟨rfl, hassigned, rfl⟩
      · exact .created hc (.inl ⟨rfl, rfl⟩) hunused
      · have hid : Path.IsId name := hassigned ▸ Ids.isId_assigned s.serials
        exact .created hc (.inr ⟨rfl, hid, rfl⟩) hunused
    · exact .inr ⟨e, hrun⟩
  | read path =>
    rcases of_reading .record (fun s => s.read path) s with ⟨record, _, hrun⟩ | ⟨e, _, hrun⟩
    · exact .inl ⟨_, s, hrun, .read⟩
    · exact .inr ⟨e, hrun⟩
  | update path expected content =>
    rcases of_writing .record (fun s => s.update path expected content) s with
      ⟨record, t, hupdate, hrun⟩ | ⟨e, _, hrun⟩
    · refine .inl ⟨_, t, hrun, ?_⟩
      obtain ⟨c, id, ms, r, hsplit, rfl, hget, _, rfl, rfl⟩ := update_eq_ok_iff.1 hupdate
      exact .updated hsplit hget
    · exact .inr ⟨e, hrun⟩
  | delete path expected =>
    rcases of_writing .record (fun s => s.delete path expected) s with
      ⟨record, t, hdelete, hrun⟩ | ⟨e, _, hrun⟩
    · refine .inl ⟨_, t, hrun, ?_⟩
      obtain ⟨c, id, r, hsplit, hget, _, rfl, rfl⟩ := delete_eq_ok_iff.1 hdelete
      exact .deleted hsplit hget
    · exact .inr ⟨e, hrun⟩
  | query c request =>
    rcases of_reading .found (fun s => s.query c request) s with ⟨found, _, hrun⟩ | ⟨e, _, hrun⟩
    · exact .inl ⟨_, s, hrun, .queried⟩
    · exact .inr ⟨e, hrun⟩

/-! ### What one call keeps -/

theorem get?_put_self (s : MemoryStore) (path : String) (fields : Members) :
    Dict.get? (s.put path fields).records path = some ⟨s.revisions + 1, fields⟩ := by
  rw [get?_put, if_pos rfl]

namespace Effect

theorem revisions_le (h : Effect s call answer t) : s.revisions ≤ t.revisions := by
  cases h with
  | created hc hname hunused =>
    rcases hname with ⟨_, rfl⟩ | ⟨_, _, rfl⟩ <;> exact Nat.le_succ _
  | updated hsplit hget => exact Nat.le_succ _
  | deleted hsplit hget => exact Nat.le_refl _
  | read => exact Nat.le_refl _
  | queried => exact Nat.le_refl _

theorem dated (h : Effect s call answer t) (hs : s.Dated) : t.Dated := by
  cases h with
  | created hc hname hunused =>
    rcases hname with ⟨_, rfl⟩ | ⟨_, _, rfl⟩
    · exact hs.put _ _
    · exact hs.nextSerial.put _ _
  | updated hsplit hget => exact hs.put _ _
  | deleted hsplit hget => exact hs.remove _
  | read => exact hs
  | queried => exact hs

/-- What is written has the revision that is answered, and it is a new one. -/
theorem written {revision : String} (h : Effect s call answer t)
    (hw : StoreEvent.written? ⟨call, .ok answer⟩ = some (p, revision)) :
    t.revisions = s.revisions + 1 ∧ revision = toString t.revisions ∧
      ∃ fields, Dict.get? t.records p = some ⟨t.revisions, fields⟩ := by
  cases h with
  | created hc hname hunused =>
    obtain ⟨rfl, rfl⟩ := Prod.mk.inj (Option.some.inj hw)
    rcases hname with ⟨_, rfl⟩ | ⟨_, _, rfl⟩
    · exact ⟨rfl, rfl, _, get?_put_self _ _ _⟩
    · exact ⟨rfl, rfl, _, get?_put_self _ _ _⟩
  | updated hsplit hget =>
    obtain ⟨rfl, rfl⟩ := Prod.mk.inj (Option.some.inj hw)
    exact ⟨rfl, rfl, _, get?_put_self _ _ _⟩
  | deleted hsplit hget => cases hw
  | read => cases hw
  | queried => cases hw

/-- A record stays unless the call changes it. -/
theorem held (h : Effect s call answer t) (hget : Dict.get? s.records p = some r)
    (hp : StoreEvent.changed? ⟨call, .ok answer⟩ ≠ some p) : Dict.get? t.records p = some r := by
  cases h with
  | created hc hname hunused =>
    have hne : ∀ path, Dict.get? s.records path = none → path ≠ p := by
      rintro path hnone rfl
      rw [hnone] at hget
      cases hget
    rcases hname with ⟨_, rfl⟩ | ⟨_, _, rfl⟩
    · rw [get?_put, if_neg (hne _ hunused), hget]
    · rw [get?_put, if_neg (hne _ hunused)]
      exact hget
  | updated hsplit hold =>
    rw [get?_put, if_neg fun heq => hp (congrArg some heq), hget]
  | deleted hsplit hold =>
    rw [get?_remove, if_neg fun heq => hp (congrArg some heq), hget]
  | read => exact hget
  | queried => exact hget

end Effect

/-- No record under a path has a revision. -/
def Lost (s : MemoryStore) (p : String) (n : Nat) : Prop :=
  ∀ r, Dict.get? s.records p = some r → r.revision ≠ n

theorem Lost.put (h : s.Lost p n) (hn : n ≤ s.revisions) (path : String) (fields : Members) :
    (s.put path fields).Lost p n := by
  intro r hget
  rw [get?_put] at hget
  split at hget
  · cases hget
    exact Nat.ne_of_gt (Nat.lt_succ_of_le hn)
  · exact h r hget

/-- A revision that was given out does not come back. -/
theorem Effect.lost (h : Effect s call answer t) (hn : n ≤ s.revisions) (hlost : s.Lost p n) :
    t.Lost p n := by
  cases h with
  | created hc hname hunused =>
    rcases hname with ⟨_, rfl⟩ | ⟨_, _, rfl⟩
    · exact hlost.put hn _ _
    · exact Lost.put (s := s.nextSerial) hlost hn _ _
  | updated hsplit hget => exact hlost.put hn _ _
  | deleted hsplit hget =>
    intro r hget
    rw [get?_remove] at hget
    split at hget
    · cases hget
    · exact hlost r hget
  | read => exact hlost
  | queried => exact hlost

/-- A change takes the revision away from the record. -/
theorem Effect.lost_of_changed (h : Effect s call answer t) (hn : n ≤ s.revisions)
    (hp : StoreEvent.changed? ⟨call, .ok answer⟩ = some p) : t.Lost p n := by
  cases h with
  | created hc hname hunused => cases hp
  | updated hsplit hget =>
    obtain rfl := Option.some.inj hp
    intro r hget
    rw [get?_put, if_pos rfl] at hget
    cases hget
    exact Nat.ne_of_gt (Nat.lt_succ_of_le hn)
  | deleted hsplit hget =>
    obtain rfl := Option.some.inj hp
    intro r hget
    rw [get?_remove, if_pos rfl] at hget
    cases hget
  | read => cases hp
  | queried => cases hp

/-! ### What a run keeps -/

/-- What the effect of every call keeps, every run keeps. -/
theorem after_induction {P : MemoryStore → Prop} (hs : P s)
    (hstep : ∀ s t call answer, P s → Effect s call answer t → P t) (calls : List StoreCall) :
    P (s.after calls) := by
  induction calls generalizing s with
  | nil => exact hs
  | cons call calls ih =>
    rw [after]
    rcases run_cases call s with ⟨answer, t, hrun, heffect⟩ | ⟨e, hrun⟩
    · rw [hrun]
      exact ih (hstep s t call answer hs heffect)
    · rw [hrun]
      exact ih hs

theorem dated_after (hs : s.Dated) (calls : List StoreCall) : (s.after calls).Dated :=
  after_induction hs (fun _ _ _ _ hs heffect => heffect.dated hs) calls

theorem lost_after (hn : n ≤ s.revisions) (hlost : s.Lost p n) (calls : List StoreCall) :
    (s.after calls).Lost p n := by
  refine (after_induction (P := fun t => n ≤ t.revisions ∧ t.Lost p n) ⟨hn, hlost⟩ ?_ calls).2
  rintro s t call answer ⟨hn, hlost⟩ heffect
  exact ⟨Nat.le_trans hn heffect.revisions_le, heffect.lost hn hlost⟩

theorem changed_cons (s : MemoryStore) (call : StoreCall) (calls : List StoreCall) :
    s.changed (call :: calls) =
      (StoreEvent.changed? ⟨call, (call.run s).1⟩).toList ++ (call.run s).2.changed calls := by
  unfold changed
  rw [events, List.filterMap_cons]
  cases StoreEvent.changed? ⟨call, (call.run s).1⟩ <;> rfl

theorem written_cons (s : MemoryStore) (call : StoreCall) (calls : List StoreCall) :
    s.written (call :: calls) =
      (StoreEvent.written? ⟨call, (call.run s).1⟩).toList ++ (call.run s).2.written calls := by
  unfold written
  rw [events, List.filterMap_cons]
  cases StoreEvent.written? ⟨call, (call.run s).1⟩ <;> rfl

/-- **A record stays as it was written** as long as nobody replaces or removes it. -/
theorem held_after (hget : Dict.get? s.records p = some r) (hp : p ∉ s.changed calls) :
    Dict.get? (s.after calls).records p = some r := by
  induction calls generalizing s with
  | nil => exact hget
  | cons call calls ih =>
    rw [changed_cons, List.mem_append, not_or] at hp
    rw [after]
    rcases run_cases call s with ⟨answer, t, hrun, heffect⟩ | ⟨e, hrun⟩
    · rw [hrun] at hp ⊢
      refine ih (heffect.held hget fun heq => hp.1 ?_) hp.2
      rw [heq]
      exact List.mem_singleton_self p
    · rw [hrun] at hp ⊢
      exact ih hget hp.2

/-- **Once it is changed, its revision is gone for good.** -/
theorem lost_of_changed (hn : n ≤ s.revisions) (hp : p ∈ s.changed calls) :
    (s.after calls).Lost p n := by
  induction calls generalizing s with
  | nil => cases hp
  | cons call calls ih =>
    rw [changed_cons, List.mem_append] at hp
    rw [after]
    rcases run_cases call s with ⟨answer, t, hrun, heffect⟩ | ⟨e, hrun⟩
    · rw [hrun] at hp ⊢
      rcases hp with hp | hp
      · rw [Option.mem_toList] at hp
        exact lost_after (Nat.le_trans hn heffect.revisions_le)
          (heffect.lost_of_changed hn hp) calls
      · exact ih (Nat.le_trans hn heffect.revisions_le) hp
    · rw [hrun] at hp ⊢
      rcases hp with hp | hp
      · cases call <;> cases hp
      · exact ih hn hp

/-- The revisions that calls answer for what they write are new. -/
theorem lt_of_mem_written {w : String × String} (hw : w ∈ s.written calls) :
    ∃ n, w.2 = toString n ∧ s.revisions < n := by
  induction calls generalizing s with
  | nil => cases hw
  | cons call calls ih =>
    rw [written_cons, List.mem_append] at hw
    rcases run_cases call s with ⟨answer, t, hrun, heffect⟩ | ⟨e, hrun⟩
    · rw [hrun] at hw
      rcases hw with hw | hw
      · obtain ⟨hnext, hrevision, _⟩ := heffect.written (Option.mem_toList.1 hw)
        exact ⟨t.revisions, hrevision, by omega⟩
      · obtain ⟨n, hrevision, hlt⟩ := ih hw
        exact ⟨n, hrevision, Nat.lt_of_le_of_lt heffect.revisions_le hlt⟩
    · rw [hrun] at hw
      rcases hw with hw | hw
      · cases call <;> cases hw
      · exact ih hw

/-- **No revision is answered twice.** -/
theorem nodup_written (s : MemoryStore) (calls : List StoreCall) :
    ((s.written calls).map (·.2)).Nodup := by
  induction calls generalizing s with
  | nil => exact List.nodup_nil
  | cons call calls ih =>
    rw [written_cons]
    rcases run_cases call s with ⟨answer, t, hrun, heffect⟩ | ⟨e, hrun⟩
    · rw [hrun]
      cases hwritten : StoreEvent.written? ⟨call, .ok answer⟩ with
      | none => exact ih t
      | some w =>
        obtain ⟨_, hrevision, _⟩ := heffect.written hwritten
        refine List.nodup_cons.2 ⟨?_, ih t⟩
        intro hmem
        obtain ⟨w', hw', heq⟩ := List.mem_map.1 hmem
        obtain ⟨n, hn, hlt⟩ := lt_of_mem_written hw'
        have hsame : n = t.revisions := Record.revision_inj (hn.symm.trans (heq.trans hrevision))
        rw [hsame] at hlt
        exact Nat.lt_irrefl _ hlt
    · rw [hrun]
      cases call <;> exact ih s

/-! ### Expected revisions -/

theorem of_writing_ok_iff {α : Type} (f : α → StoreAnswer)
    (g : MemoryStore → Except StoreError (α × MemoryStore)) (s : MemoryStore) :
    (∃ answer, (StoreAnswer.of f (writing g) s).1 = .ok answer) ↔ ∃ a t, g s = .ok (a, t) := by
  rcases of_writing f g s with ⟨a, t, hg, hrun⟩ | ⟨e, hg, hrun⟩
  · simp [hrun, hg]
  · simp [hrun, hg]

theorem accepts_update_iff {expected : Option String} {content : Json} :
    s.Accepts (.update path expected content) ↔ (Path.split? path).isSome ∧
      (∃ ms, content = .obj ms) ∧
      ∃ r, Dict.get? s.records (Path.trim path) = some r ∧ Meets expected r := by
  refine (of_writing_ok_iff .record (fun s => s.update path expected content) s).trans ?_
  constructor
  · rintro ⟨record, t, hupdate⟩
    obtain ⟨c, id, ms, r, hsplit, rfl, hget, hmeets, _⟩ := update_eq_ok_iff.1 hupdate
    exact ⟨by rw [hsplit]; rfl, ⟨ms, rfl⟩, r, hget, hmeets⟩
  · rintro ⟨hsplit, ⟨ms, rfl⟩, r, hget, hmeets⟩
    obtain ⟨⟨c, id⟩, hsplit⟩ := Option.isSome_iff_exists.1 hsplit
    exact ⟨_, _, update_eq_ok_iff.2 ⟨c, id, ms, r, hsplit, rfl, hget, hmeets, rfl, rfl⟩⟩

theorem accepts_delete_iff {expected : Option String} :
    s.Accepts (.delete path expected) ↔ (Path.split? path).isSome ∧
      ∃ r, Dict.get? s.records (Path.trim path) = some r ∧ Meets expected r := by
  refine (of_writing_ok_iff .record (fun s => s.delete path expected) s).trans ?_
  constructor
  · rintro ⟨record, t, hdelete⟩
    obtain ⟨c, id, r, hsplit, hget, hmeets, _⟩ := delete_eq_ok_iff.1 hdelete
    exact ⟨by rw [hsplit]; rfl, r, hget, hmeets⟩
  · rintro ⟨hsplit, r, hget, hmeets⟩
    obtain ⟨⟨c, id⟩, hsplit⟩ := Option.isSome_iff_exists.1 hsplit
    exact ⟨_, _, delete_eq_ok_iff.2 ⟨c, id, r, hsplit, hget, hmeets, rfl, rfl⟩⟩

/-- A record has the revision it was written at as long as nobody has changed it. -/
theorem meets_after_iff {fields : Members} (hget : Dict.get? s.records p = some ⟨n, fields⟩)
    (hn : n ≤ s.revisions) (calls : List StoreCall) :
    (∃ r, Dict.get? (s.after calls).records p = some r ∧ Meets (some (toString n)) r) ↔
      p ∉ s.changed calls := by
  constructor
  · rintro ⟨r, hr, hmeets⟩ hp
    exact lost_of_changed hn hp r hr (meets_toString.1 hmeets)
  · intro hp
    exact ⟨_, held_after hget hp, meets_toString.2 rfl⟩

/-- Whatever a call writes can be addressed. -/
theorem Effect.isSome_split? {revision : String} (h : Effect s call answer t)
    (hnamed : call.Named)
    (hw : StoreEvent.written? ⟨call, .ok answer⟩ = some (p, revision))
    (hpath : Path.trim path = p) : (Path.split? path).isSome := by
  cases h with
  | created hc hname hunused =>
    rename_i c name id ms u
    obtain ⟨rfl, _⟩ := Prod.mk.inj (Option.some.inj hw)
    have hid : Path.IsId name := by
      rcases hname with ⟨rfl, _⟩ | ⟨_, hid, _⟩
      · exact hnamed
      · exact hid
    have hcontainer := Path.isContainer_trim hc
    have htrim : Path.trim path = Path.trim (Path.join (Path.trim c) name) := by
      rw [hcontainer.trim_join hid, hcontainer.trim_eq]
      exact hpath
    rw [Path.split?_congr htrim, Path.split?_join hcontainer hid]
    rfl
  | updated hsplit hget =>
    obtain ⟨rfl, _⟩ := Prod.mk.inj (Option.some.inj hw)
    rw [Path.split?_congr hpath, hsplit]
    rfl
  | deleted hsplit hget => cases hw
  | read => cases hw
  | queried => cases hw

/-- **A revision names one write.** No two writes of a run answer the same one; whoever expects
    the revision of a write removes the record, or replaces it by an object, exactly as long as
    nobody else has changed it since, and what fails leaves everything as it was. -/
theorem revision_names_write (calls : List StoreCall) :
    ((empty.written calls).map (·.2)).Nodup ∧
    (∀ before w between p revision, calls = before ++ w :: between → w.Named →
      StoreEvent.written? ⟨w, (w.run (empty.after before)).1⟩ = some (p, revision) →
      ∀ path, Path.trim path = p →
        (∀ content, (empty.after calls).Accepts (.update path (some revision) content) ↔
          (∃ ms, content = .obj ms) ∧ p ∉ (empty.after (before ++ [w])).changed between) ∧
        ((empty.after calls).Accepts (.delete path (some revision)) ↔
          p ∉ (empty.after (before ++ [w])).changed between)) ∧
    ∀ (call : StoreCall) (e : StoreError), (call.run (empty.after calls)).1 = .error e →
      (call.run (empty.after calls)).2 = empty.after calls := by
  refine ⟨nodup_written empty calls, ?_, ?_⟩
  · rintro before w between p revision rfl hnamed hw path hpath
    rw [after_append, after_append]
    generalize empty.after before = s at hw ⊢
    rw [after, after, after]
    rcases run_cases w s with ⟨answer, t, hrun, heffect⟩ | ⟨e, hrun⟩
    · rw [hrun] at hw ⊢
      obtain ⟨_, rfl, fields, hget⟩ := heffect.written hw
      have hsplit := heffect.isSome_split? hnamed hw hpath
      have hmeets := meets_after_iff hget (Nat.le_refl _) between
      constructor
      · intro content
        rw [accepts_update_iff, hpath, hmeets]
        simp [hsplit]
      · rw [accepts_delete_iff, hpath, hmeets]
        simp [hsplit]
    · rw [hrun] at hw
      cases w <;> cases hw
  · intro call e herror
    rcases run_cases call (empty.after calls) with ⟨answer, t, hrun, _⟩ | ⟨e', hrun⟩
    · rw [hrun] at herror
      cases herror
    · rw [hrun]

/-- A record that is created, removed and created again. -/
def recreated : List StoreCall :=
  [.create "things" (some "1") (.obj []), .delete "things/1" none,
    .create "things" (some "1") (.obj [])]

theorem revision_names_write_recreated :
    empty.written recreated = [("things/1", "1"), ("things/1", "2")] ∧
      ¬(empty.after recreated).Accepts (.delete "things/1" (some "1")) ∧
      (empty.after recreated).Accepts (.delete "things/1" (some "2")) := by
  have hnamed : (StoreCall.create "things" (some "1") (.obj [])).Named := ⟨by decide, by decide⟩
  have hwrites := (revision_names_write recreated).2.1
  refine ⟨by decide, ?_, ?_⟩
  · intro h
    have hold := (hwrites [] _ _ "things/1" "1" rfl hnamed (by decide) "things/1" (by decide)).2.1 h
    exact hold (by decide)
  · exact (hwrites (recreated.take 2) _ [] "things/1" "2" rfl hnamed (by decide) "things/1"
      (by decide)).2.2 (by decide)

/-- **A content that is no object is refused**, though nobody has changed the record. -/
theorem update_refuses_content :
    let calls := [StoreCall.create "things" (some "1") (.obj [])]
    empty.written calls = [("things/1", "1")] ∧ (empty.after calls).changed [] = [] ∧
      ¬(empty.after calls).Accepts (.update "things/1" (some "1") (.num (.int 5))) := by
  refine ⟨by decide, rfl, ?_⟩
  rw [accepts_update_iff]
  rintro ⟨_, ⟨ms, h⟩, _⟩
  cases h

end MemoryStore

end EdgeFields
