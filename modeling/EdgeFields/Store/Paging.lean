/-
  EdgeFields/Store/Paging.lean
  ============================
  **Pages of query results.**

  A page starts at the cookie, or at the offset when there is no cookie, and holds as
  many results as the page size says; a page size of zero asks for all the rest. The
  cookie of a page is the position behind it, and the last page has none.
-/
import EdgeFields.Request
import EdgeFields.Text.Index

namespace EdgeFields.Paging

/-- The position at which a request's page starts, or the cookie that is none. -/
def start (r : Request) : Except String Nat :=
  match r.cookie with
  | none => .ok r.offset
  | some c =>
    match Text.index? c with
    | some n => .ok n
    | none => .error c

/-- The results of a page. -/
def page {α : Type} (pageSize first : Nat) (items : List α) : List α :=
  if pageSize = 0 then items.drop first else (items.drop first).take pageSize

/-- What is said about a page of `count` results, `total` being there in all. -/
def response (r : Request) (first count total : Nat) : Response :=
  let behind := first + count
  let remaining := total - behind
  { cookie := if r.pageSize = 0 ∨ remaining = 0 then none else some (toString behind)
    remaining := if r.pageSize = 0 then none else some remaining
    total := if r.total = .none then none else some total }

end EdgeFields.Paging
