/-
  EdgeFields/Proofs/Exclusion.lean
  ================================
  **Locks of owners exclude each other and do not pile up.**

  Tasks move the locks by three steps in any order (`OwnerLocks.Step`): a request, which is
  atomic under the lock of the table, the grant of a lock that is free, and the end of a claim,
  whether it was held or not.  What every step keeps is `OwnerLocks.Shared`: each owner that
  somebody claims has one lock, which is the one in the table, no lock serves two owners, and
  no lock is held twice.  The entries that a request drops are those that no claim needs, so
  that the next request of such an owner may well make a new lock.

  Main statement: `OwnerLocks.guards_exclude`.
-/
import EdgeFields.Locks
import EdgeFields.Proofs.Dict

namespace EdgeFields.OwnerLocks

variable {s t : OwnerLocks} {owner o : String} {lock : Nat}

/-! ### Steps of tasks -/

/-- A step of some task. A task waits or holds from its request to its withdrawal. -/
inductive Step (s : OwnerLocks) : OwnerLocks → Prop
  | request (owner : String) : Step s (s.request owner)
  | grant {c : LockClaim} (hc : c ∈ s.claims) (hfree : s.isHeld c.lock = false) :
    Step s (s.grant c.ticket)
  | withdraw (ticket : Nat) : Step s (s.withdraw ticket)

/-- The states that tasks lead to, in whatever order they take their steps. -/
inductive Reached : OwnerLocks → Prop
  | start : Reached {}
  | step {s t : OwnerLocks} (hs : Reached s) (h : Step s t) : Reached t

/-! ### What a request does -/

theorem inUse_iff : s.inUse lock = true ↔ ∃ c ∈ s.claims, c.lock = lock := by
  simp [inUse]

theorem isHeld_eq_false_iff :
    s.isHeld lock = false ↔ ∀ c ∈ s.claims, c.lock = lock → c.held = false := by
  simp [isHeld]

theorem sorted_pruned (h : Dict.Sorted s.table) (owner : String) :
    Dict.Sorted (s.pruned owner) := by
  unfold Dict.Sorted pruned
  exact List.Pairwise.sublist (List.filter_sublist.map _) h

/-- A request keeps the entries of its own owner and those that are in use. -/
theorem get?_pruned (h : Dict.Sorted s.table) :
    Dict.get? (s.pruned owner) o = some lock ↔
      Dict.get? s.table o = some lock ∧ (o = owner ∨ s.inUse lock = true) := by
  rw [← (sorted_pruned h owner).mem_iff, ← h.mem_iff]
  simp [pruned]

/-- A request finds or makes the lock that it claims. -/
theorem request_cases (h : Dict.Sorted s.table) (owner : String) :
    (∃ lock, Dict.get? s.table owner = some lock ∧
      s.request owner = { s with table := s.pruned owner }.join owner lock) ∨
    (Dict.get? s.table owner = none ∧
      s.request owner = { s with
        table := Dict.insert owner s.locks (s.pruned owner)
        locks := s.locks + 1 }.join owner s.locks) := by
  unfold request
  cases hget : Dict.get? (s.pruned owner) owner with
  | some lock => exact .inl ⟨lock, ((get?_pruned h).1 hget).1, by simp [hget]⟩
  | none =>
    refine .inr ⟨?_, by simp [hget]⟩
    cases hold : Dict.get? s.table owner with
    | none => rfl
    | some lock =>
      have hkept := (get?_pruned h).2 ⟨hold, .inl rfl⟩
      rw [hget] at hkept
      cases hkept

theorem get?_request_of_ne (ho : o ≠ owner) :
    Dict.get? (s.request owner).table o = Dict.get? (s.pruned owner) o := by
  unfold request
  cases hget : Dict.get? (s.pruned owner) owner with
  | some lock => simp [hget, join]
  | none => simp [hget, join, Dict.get?_insert_of_ne (Ne.symm ho)]

theorem claims_request (s : OwnerLocks) (owner : String) :
    ∃ lock, (s.request owner).claims = s.claims ++ [⟨s.tickets, owner, lock, false⟩] := by
  unfold request
  cases hget : Dict.get? (s.pruned owner) owner with
  | some lock => exact ⟨lock, by simp [hget, join]⟩
  | none => exact ⟨s.locks, by simp [hget, join]⟩

/-! ### What every step keeps -/

/-- Each owner that is claimed has one lock, that of the table, and nobody shares it who claims
    another owner. No lock is held twice. -/
structure Shared (s : OwnerLocks) : Prop where
  sorted : Dict.Sorted s.table
  tracked : ∀ c ∈ s.claims, Dict.get? s.table c.owner = some c.lock
  made : ∀ o lock, Dict.get? s.table o = some lock → lock < s.locks
  apart : ∀ o o' lock, Dict.get? s.table o = some lock → Dict.get? s.table o' = some lock → o = o'
  exclusive : s.claims.Pairwise fun a b => a.held = true → b.held = true → a.lock ≠ b.lock
  tickets : s.claims.Pairwise fun a b => a.ticket ≠ b.ticket
  issued : ∀ c ∈ s.claims, c.ticket < s.tickets

theorem shared_start : Shared {} where
  sorted := by simp [Dict.Sorted]
  tracked := by simp
  made := by simp
  apart := by simp
  exclusive := by simp
  tickets := by simp
  issued := by simp

/-- A table with the locks in use and one for the owner has room for a claim of the owner. -/
theorem Shared.join {table : Dict Nat} {locks : Nat} (h : s.Shared) (hsorted : Dict.Sorted table)
    (howner : Dict.get? table owner = some lock)
    (hkept : ∀ c ∈ s.claims, Dict.get? table c.owner = some c.lock)
    (hmade : ∀ o lock, Dict.get? table o = some lock → lock < locks)
    (hapart : ∀ o o' lock, Dict.get? table o = some lock → Dict.get? table o' = some lock → o = o') :
    ({ s with table := table, locks := locks }.join owner lock).Shared where
  sorted := hsorted
  tracked := by
    intro c hc
    rcases List.mem_append.1 hc with hc | hc
    · exact hkept c hc
    · rw [List.mem_singleton.1 hc]
      exact howner
  made := hmade
  apart := hapart
  exclusive := by
    refine List.pairwise_append.2 ⟨h.exclusive, by simp, ?_⟩
    intro a _ b hb _ hheld
    rw [List.mem_singleton.1 hb] at hheld
    cases hheld
  tickets := by
    refine List.pairwise_append.2 ⟨h.tickets, by simp, ?_⟩
    intro a ha b hb
    have hlt := h.issued a ha
    rw [List.mem_singleton.1 hb]
    exact Nat.ne_of_lt hlt
  issued := by
    intro c hc
    show c.ticket < s.tickets + 1
    rcases List.mem_append.1 hc with hc | hc
    · exact Nat.lt_succ_of_lt (h.issued c hc)
    · rw [List.mem_singleton.1 hc]
      exact Nat.lt_succ_self _

/-- What a request leaves of the table has the locks of all claims. -/
theorem Shared.get?_pruned_of_mem (h : s.Shared) (owner : String) {c : LockClaim}
    (hc : c ∈ s.claims) : Dict.get? (s.pruned owner) c.owner = some c.lock :=
  (get?_pruned h.sorted).2 ⟨h.tracked c hc, .inr (inUse_iff.2 ⟨c, hc, rfl⟩)⟩

theorem Shared.request (h : s.Shared) (owner : String) : (s.request owner).Shared := by
  have hold : ∀ o lock, Dict.get? (s.pruned owner) o = some lock →
      Dict.get? s.table o = some lock := fun o lock hget => ((get?_pruned h.sorted).1 hget).1
  obtain ⟨lock, hget, heq⟩ | ⟨hget, heq⟩ := request_cases h.sorted owner
  · rw [heq]
    refine h.join (sorted_pruned h.sorted owner) ((get?_pruned h.sorted).2 ⟨hget, .inl rfl⟩)
      (fun c hc => h.get?_pruned_of_mem owner hc) ?_ ?_
    · intro o lock hget
      exact h.made o lock (hold o lock hget)
    · intro o o' lock hget hget'
      exact h.apart o o' lock (hold o lock hget) (hold o' lock hget')
  · rw [heq]
    -- the new lock is none of those that the table had
    have hcases : ∀ o lock, Dict.get? (Dict.insert owner s.locks (s.pruned owner)) o = some lock →
        (owner = o ∧ lock = s.locks) ∨ Dict.get? s.table o = some lock := by
      intro o lock hget
      rw [Dict.get?_insert] at hget
      by_cases ho : owner = o
      · simp [ho] at hget
        exact .inl ⟨ho, hget.symm⟩
      · simp [ho] at hget
        exact .inr (hold o lock hget)
    refine h.join (sorted_pruned h.sorted owner).insert (Dict.get?_insert_self ..) ?_ ?_ ?_
    · intro c hc
      have htracked := h.tracked c hc
      have hne : owner ≠ c.owner := by
        intro ho
        rw [← ho, hget] at htracked
        cases htracked
      rw [Dict.get?_insert_of_ne hne]
      exact h.get?_pruned_of_mem owner hc
    · intro o lock hget
      rcases hcases o lock hget with ⟨_, rfl⟩ | hget
      · omega
      · have := h.made o lock hget
        omega
    · intro o o' lock hget hget'
      rcases hcases o lock hget with ⟨ho, hlock⟩ | hget
      · rcases hcases o' lock hget' with ⟨ho', _⟩ | hget'
        · exact ho.symm.trans ho'
        · have := h.made o' lock hget'
          omega
      · rcases hcases o' lock hget' with ⟨_, hlock⟩ | hget'
        · have := h.made o lock hget
          omega
        · exact h.apart o o' lock hget hget'

/-- No two claims have the same ticket. -/
theorem Shared.eq_of_ticket_eq (h : s.Shared) {a b : LockClaim} (ha : a ∈ s.claims)
    (hb : b ∈ s.claims) (heq : a.ticket = b.ticket) : a = b := by
  have hne : s.claims.Pairwise fun a b => a.ticket = b.ticket → a = b :=
    h.tickets.imp fun hne heq => absurd heq hne
  have hne' : s.claims.Pairwise (flip fun a b => a.ticket = b.ticket → a = b) :=
    h.tickets.imp fun hne heq => absurd heq.symm hne
  exact List.Pairwise.forall_of_forall_of_flip (fun _ _ _ => rfl) hne hne' ha hb heq

theorem mem_grant {ticket : Nat} {c : LockClaim} (hc : c ∈ (s.grant ticket).claims) :
    ∃ c' ∈ s.claims, c.ticket = c'.ticket ∧ c.owner = c'.owner ∧ c.lock = c'.lock := by
  simp only [grant, List.mem_map] at hc
  obtain ⟨c', hc', rfl⟩ := hc
  refine ⟨c', hc', ?_⟩
  by_cases h : c'.ticket = ticket <;> simp [h]

theorem Shared.grant {c : LockClaim} (h : s.Shared) (hc : c ∈ s.claims)
    (hfree : s.isHeld c.lock = false) : (s.grant c.ticket).Shared where
  sorted := h.sorted
  tracked := by
    intro a ha
    obtain ⟨a', ha', _, howner, hlock⟩ := mem_grant ha
    rw [howner, hlock]
    exact h.tracked a' ha'
  made := h.made
  apart := h.apart
  exclusive := by
    rw [isHeld_eq_false_iff] at hfree
    simp only [OwnerLocks.grant, List.pairwise_map]
    refine (h.exclusive.and h.tickets).imp_of_mem ?_
    intro a b ha hb ⟨hexclusive, hticket⟩
    -- at most one of the two has the lock granted, and the other one holds none on this lock
    by_cases hac : a.ticket = c.ticket
    · have hbc : b.ticket ≠ c.ticket := fun hbc => hticket (hac.trans hbc.symm)
      rw [h.eq_of_ticket_eq ha hc hac]
      simp only [hbc, if_true, if_false]
      intro _ hheld heq
      simp [hfree b hb heq.symm] at hheld
    · by_cases hbc : b.ticket = c.ticket
      · rw [h.eq_of_ticket_eq hb hc hbc]
        simp only [hac, if_true, if_false]
        intro hheld _ heq
        simp [hfree a ha heq] at hheld
      · simpa only [hac, hbc, if_false] using hexclusive
  tickets := by
    simp only [OwnerLocks.grant, List.pairwise_map]
    refine h.tickets.imp ?_
    intro a b hne
    by_cases ha : a.ticket = c.ticket <;> by_cases hb : b.ticket = c.ticket <;> simp_all
  issued := by
    intro a ha
    obtain ⟨a', ha', hticket, _⟩ := mem_grant ha
    rw [hticket]
    exact h.issued a' ha'

theorem Shared.withdraw (h : s.Shared) (ticket : Nat) : (s.withdraw ticket).Shared where
  sorted := h.sorted
  tracked := fun c hc => h.tracked c (List.mem_filter.1 hc).1
  made := h.made
  apart := h.apart
  exclusive := h.exclusive.filter _
  tickets := h.tickets.filter _
  issued := fun c hc => h.issued c (List.mem_filter.1 hc).1

theorem Shared.step (h : s.Shared) (hstep : Step s t) : t.Shared := by
  cases hstep with
  | request owner => exact h.request owner
  | grant hc hfree => exact h.grant hc hfree
  | withdraw ticket => exact h.withdraw ticket

theorem Reached.shared (h : Reached s) : s.Shared := by
  induction h with
  | start => exact shared_start
  | step _ hstep ih => exact ih.step hstep

/-! ### The steps that run together -/

/-- Free locks are granted by steps. -/
theorem Reached.settleEach (h : Reached s) {cs : List LockClaim}
    (hcs : ∀ c ∈ cs, ∃ c' ∈ s.claims, c.ticket = c'.ticket ∧ c.lock = c'.lock) :
    Reached (s.settleEach cs) := by
  induction cs generalizing s with
  | nil => exact h
  | cons c cs ih =>
    rw [List.forall_mem_cons] at hcs
    obtain ⟨⟨c', hc', hticket, hlock⟩, hcs⟩ := hcs
    unfold OwnerLocks.settleEach
    by_cases hheld : s.isHeld c.lock = true
    · simp only [hheld, if_true]
      exact ih h hcs
    · simp only [hheld]
      rw [Bool.not_eq_true, hlock] at hheld
      refine ih (hticket ▸ h.step (.grant hc' hheld)) ?_
      intro a ha
      obtain ⟨a', ha', hticket', hlock'⟩ := hcs a ha
      refine ⟨_, List.mem_map_of_mem ha', ?_⟩
      by_cases hgranted : a'.ticket = c.ticket <;> simp [hgranted, hticket', hlock']

theorem Reached.settle (h : Reached s) : Reached s.settle :=
  h.settleEach fun c hc => ⟨c, hc, rfl, rfl⟩

theorem Reached.acquire (h : Reached s) (owner : String) : Reached (s.acquire owner).2 :=
  (h.step (.request owner)).settle

theorem Reached.leave (h : Reached s) (ticket : Nat) : Reached (s.leave ticket) :=
  (h.step (.withdraw ticket)).settle

/-! ### Guards and tracked owners -/

/-- No owner has two guards. -/
theorem Shared.length_guards_le_one (h : s.Shared) (o : String) :
    (s.claims.filter fun c => c.owner == o && c.held).length ≤ 1 := by
  have hguard : ∀ c ∈ s.claims.filter (fun c => c.owner == o && c.held),
      Dict.get? s.table o = some c.lock ∧ c.held = true := by
    intro c hc
    simp only [List.mem_filter, Bool.and_eq_true, beq_iff_eq] at hc
    obtain ⟨hc, rfl, hheld⟩ := hc
    exact ⟨h.tracked c hc, hheld⟩
  have hexclusive := h.exclusive.filter fun c => c.owner == o && c.held
  generalize s.claims.filter (fun c => c.owner == o && c.held) = guards at hguard hexclusive
  match guards with
  | [] => simp
  | [_] => simp
  | a :: b :: _ =>
    have ha := hguard a (by simp)
    have hb := hguard b (by simp)
    simp only [List.pairwise_cons, List.mem_cons] at hexclusive
    have hsame : a.lock = b.lock := Option.some.inj (ha.1.symm.trans hb.1)
    exact absurd hsame (hexclusive.1 b (.inl rfl) ha.2 hb.2)

/-- After a request just the owners that somebody claims are tracked. -/
theorem Shared.tracked_request_iff (h : s.Shared) (owner o : String) :
    Dict.contains (s.request owner).table o = true ↔
      ∃ c ∈ (s.request owner).claims, c.owner = o := by
  rw [Dict.contains, Option.isSome_iff_exists]
  constructor
  · rintro ⟨lock, hget⟩
    obtain ⟨new, hclaims⟩ := claims_request s owner
    rw [hclaims]
    by_cases ho : o = owner
    · exact ⟨_, List.mem_append_right _ (List.mem_singleton_self _), ho.symm⟩
    · -- the entry of another owner was left because its lock is in use, which is that of no other
      rw [get?_request_of_ne ho, get?_pruned h.sorted] at hget
      obtain ⟨c, hc, hlock⟩ := inUse_iff.1 (hget.2.resolve_left ho)
      have htracked := h.tracked c hc
      rw [hlock] at htracked
      exact ⟨c, List.mem_append_left _ hc, h.apart c.owner o lock htracked hget.1⟩
  · rintro ⟨c, hc, rfl⟩
    exact ⟨c.lock, (h.request owner).tracked c hc⟩

/-- **The locks of owners exclude and do not pile up.** In every state that tasks lead to, no
    owner has two guards, and everybody who holds or awaits the lock of an owner has the one in
    the table, which serves no other owner. Right after a request the tracked owners are those
    of somebody who holds or waits, the new claim included. -/
theorem guards_exclude (hs : Reached s) :
    (∀ o, (s.claims.filter fun c => c.owner == o && c.held).length ≤ 1) ∧
    (∀ c ∈ s.claims, Dict.get? s.table c.owner = some c.lock ∧
      ∀ o, Dict.get? s.table o = some c.lock → o = c.owner) ∧
    ∀ owner,
      (∀ o, Dict.contains (s.request owner).table o = true ↔
        ∃ c ∈ (s.request owner).claims, c.owner = o) ∧
      ∃ lock, (s.request owner).claims = s.claims ++ [⟨s.tickets, owner, lock, false⟩] := by
  have h := hs.shared
  refine ⟨h.length_guards_le_one, ?_, ?_⟩
  · intro c hc
    have htracked := h.tracked c hc
    exact ⟨htracked, fun o ho => h.apart o c.owner c.lock ho htracked⟩
  · intro owner
    exact ⟨h.tracked_request_iff owner, claims_request s owner⟩

/-- A user's lock is held and awaited, and a role's lock is no longer claimed. -/
def contended : OwnerLocks :=
  ((((({} : OwnerLocks).acquire "managed/role/1").2.acquire "managed/user/1").2.acquire
    "managed/user/1").2.leave 0)

theorem reached_contended : Reached contended :=
  (((Reached.start.acquire _).acquire _).acquire _).leave _

/-- When the holder leaves, the waiting task has the only guard of the user, and the next request
    finds the user tracked and the role of before not. -/
theorem guards_exclude_contended :
    Reached (contended.leave 1) ∧ (contended.leave 1).holds 2 = true ∧
    ((contended.leave 1).claims.filter fun c => c.owner == "managed/user/1" && c.held).length ≤ 1 ∧
    (∀ o, Dict.contains ((contended.leave 1).request "managed/role/2").table o = true ↔
      ∃ c ∈ ((contended.leave 1).request "managed/role/2").claims, c.owner = o) ∧
    Dict.contains ((contended.leave 1).request "managed/role/2").table "managed/role/1" = false := by
  have hs := reached_contended.leave 1
  have h := guards_exclude hs
  exact ⟨hs, by decide, h.1 _, (h.2.2 _).1, by decide⟩

end EdgeFields.OwnerLocks
