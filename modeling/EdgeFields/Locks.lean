/-
  EdgeFields/Locks.lean
  =====================
  **Locks of owners.**

  Replaces of one owner that run concurrently wait for each other by the owner's lock. A
  claim on a lock begins with `request`, which finds or makes the lock in a table and drops
  the entries of other owners that nobody holds or waits for; later the claim takes the lock
  once it is free (`grant`), and it ends with `withdraw`, whether it held the lock or not.

  Locks are fair: `settle` grants every free lock to its oldest claim. `acquire` and `leave`
  are the steps together with what they settle.
-/
import EdgeFields.Dict

namespace EdgeFields

/-- Somebody who holds a lock or waits for it. -/
structure LockClaim where
  ticket : Nat
  owner : String
  lock : Nat
  held : Bool
deriving DecidableEq, Repr

structure OwnerLocks where
  /-- The lock of each owner that is tracked. -/
  table : Dict Nat := []
  /-- The claims that have not ended, the oldest first. -/
  claims : List LockClaim := []
  /-- The number of locks made. -/
  locks : Nat := 0
  /-- The number of tickets given out. -/
  tickets : Nat := 0
deriving DecidableEq, Repr

namespace OwnerLocks

/-! ### Steps -/

/-- Whether somebody holds a lock or waits for it. -/
def inUse (s : OwnerLocks) (lock : Nat) : Bool := s.claims.any (·.lock == lock)

def isHeld (s : OwnerLocks) (lock : Nat) : Bool := s.claims.any fun c => c.lock == lock && c.held

/-- The entries that a request of an owner leaves in the table. -/
def pruned (s : OwnerLocks) (owner : String) : Dict Nat :=
  s.table.filter fun e => e.1 == owner || s.inUse e.2

/-- Puts a claim behind all others. -/
def join (s : OwnerLocks) (owner : String) (lock : Nat) : OwnerLocks :=
  { s with
    claims := s.claims ++ [⟨s.tickets, owner, lock, false⟩]
    tickets := s.tickets + 1 }

/-- Claims the lock of an owner. The ticket of the claim is the number of tickets before. -/
def request (s : OwnerLocks) (owner : String) : OwnerLocks :=
  let kept := s.pruned owner
  match Dict.get? kept owner with
  | some lock => { s with table := kept }.join owner lock
  | none =>
    { s with table := Dict.insert owner s.locks kept, locks := s.locks + 1 }.join owner s.locks

/-- Gives a claim its lock. -/
def grant (s : OwnerLocks) (ticket : Nat) : OwnerLocks :=
  { s with claims := s.claims.map fun c => if c.ticket = ticket then { c with held := true } else c }

/-- Ends a claim. -/
def withdraw (s : OwnerLocks) (ticket : Nat) : OwnerLocks :=
  { s with claims := s.claims.filter fun c => c.ticket != ticket }

/-- Grants claims, from the oldest on, whose lock is free. -/
def settleEach (s : OwnerLocks) : List LockClaim → OwnerLocks
  | [] => s
  | c :: cs => settleEach (if s.isHeld c.lock then s else s.grant c.ticket) cs

/-- Grants every free lock to its oldest claim. -/
def settle (s : OwnerLocks) : OwnerLocks := s.settleEach s.claims

/-! ### Use -/

/-- Claims the lock of an owner; the claim holds it at once if it is free. -/
def acquire (s : OwnerLocks) (owner : String) : Nat × OwnerLocks :=
  (s.tickets, (s.request owner).settle)

/-- Ends a claim. If it held its lock, the oldest of the waiting claims has it next. -/
def leave (s : OwnerLocks) (ticket : Nat) : OwnerLocks := (s.withdraw ticket).settle

/-- Whether a claim holds its lock. -/
def holds (s : OwnerLocks) (ticket : Nat) : Bool :=
  s.claims.any fun c => c.ticket == ticket && c.held

/-- The number of owners that are tracked. -/
def size (s : OwnerLocks) : Nat := s.table.length

def isEmpty (s : OwnerLocks) : Bool := s.table.isEmpty

end OwnerLocks

end EdgeFields
