/-
  EdgeFields/Proofs/Rejection.lean
  ================================
  **A rejected write leaves no trace.**

  Nothing is taken back when a write fails, and yet a failed write changes nothing: every
  check comes before the first write (`Collection.set_eq_plan`, `Singleton.set_eq_plan`),
  and a plan that fits its store is performed to the end (`Plan.perform_of_fits`). So a
  write either fails while it only reads, or succeeds.
-/
import EdgeFields.Engine.Value
import EdgeFields.Proofs.Singleton

namespace EdgeFields

open EngineM

/-! ### A small store -/

namespace Sample

/-- The roles of users, which list their members. -/
def roles : BoundField where
  container := "managed/user"
  field := { name := "roles", cardinality := .collection, reverseName := some "members" }
  settings := {}

/-- The members of roles, who list their roles. -/
def members : BoundField where
  container := "managed/role"
  field := {
    name := "members", isReverse := true, cardinality := .collection, reverseName := some "roles" }
  settings := {}

/-- The edge of a user's role, made from the user's side. -/
def assigned : Edge where
  firstId := "managed/user/1"
  firstName := "roles"
  secondId := "managed/role/1"
  secondName := some "members"
  properties := []

/-- The edge of another role, made from the role's side. -/
def joined : Edge where
  firstId := "managed/role/2"
  firstName := "members"
  secondId := "managed/user/1"
  secondName := some "roles"
  properties := []

/-- A user and a role. -/
def seeds : MemoryStore :=
  (MemoryStore.empty.put (Path.join "managed/user" "1") []).put (Path.join "managed/role" "1") []

/-- A user and three roles. The user has the first two. -/
def store : MemoryStore :=
  (((seeds.put (Path.join "managed/role" "2") []).put
    (Path.join "managed/role" "3") []).put
    (Path.join "repo/relationships" "e1") assigned.content).put
    (Path.join "repo/relationships" "e2") joined.content

theorem isContainer_users : Path.IsContainer "managed/user" :=
  ⟨⟨by decide, by decide⟩, by decide⟩

theorem isContainer_roles : Path.IsContainer "managed/role" :=
  ⟨⟨by decide, by decide⟩, by decide⟩

theorem isContainer_edges : Path.IsContainer "repo/relationships" :=
  ⟨⟨by decide, by decide⟩, by decide⟩

theorem isId_of_mem : ∀ id ∈ ["1", "2", "3", "e1", "e2"], Path.IsId id := by
  intro id hid
  exact ⟨by revert id; decide, by revert id; decide⟩

theorem ne_assigned_of_mem :
    ∀ id ∈ ["1", "2", "3", "e1", "e2"], ∀ i < 1, id ≠ Ids.assigned (0 + i) := by
  decide +kernel

theorem wellFormed_seeds : seeds.WellFormed :=
  (MemoryStore.wellFormed_empty.put isContainer_users (isId_of_mem _ (by decide)) _).put
    isContainer_roles (isId_of_mem _ (by decide)) _

theorem wellFormed_store : store.WellFormed :=
  (((wellFormed_seeds.put isContainer_roles (isId_of_mem _ (by decide)) _).put
    isContainer_roles (isId_of_mem _ (by decide)) _).put
    isContainer_edges (isId_of_mem _ (by decide)) _).put
    isContainer_edges (isId_of_mem _ (by decide)) _

theorem freshIds_seeds : seeds.FreshIds 1 :=
  (MemoryStore.freshIds_empty.put_of_ne isContainer_users (isId_of_mem _ (by decide))
    (ne_assigned_of_mem _ (by decide)) _).put_of_ne isContainer_roles (isId_of_mem _ (by decide))
    (ne_assigned_of_mem _ (by decide)) _

theorem freshIds_store : store.FreshIds 1 :=
  (((freshIds_seeds.put_of_ne isContainer_roles (isId_of_mem _ (by decide))
    (ne_assigned_of_mem _ (by decide)) _).put_of_ne isContainer_roles (isId_of_mem _ (by decide))
    (ne_assigned_of_mem _ (by decide)) _).put_of_ne isContainer_edges (isId_of_mem _ (by decide))
    (ne_assigned_of_mem _ (by decide)) _).put_of_ne isContainer_edges (isId_of_mem _ (by decide))
    (ne_assigned_of_mem _ (by decide)) _

theorem accepted_roles : roles.settings.Accepted := rfl

/-- A value with a role that does not exist. -/
def missingRole : Json := .arr [.obj [("_ref", .str "managed/role/9")]]

end Sample

/-! ### Writes fail as plans do -/

namespace Collection

variable {b : BoundField} {replacing : Bool} {id : String} {value : List Reference}
  {s : MemoryStore} {e : Error}

theorem set_error (hs : s.WellFormed) (hc : Path.IsAddress b.edgeContainer)
    (hfresh : s.FreshIds (value.countP (·.edgeId?.isNone))) {s' : MemoryStore}
    (h : set b replacing id value s = (.error e, s')) : s' = s := by
  cases hplan : (plan b replacing id value).answer s with
  | error e' =>
    rw [set_of_answer_plan_error hplan] at h
    cases h
    rfl
  | ok p =>
    obtain ⟨rs, hrun, _⟩ := set_of_answer_plan_ok hs hc hfresh hplan
    rw [hrun] at h
    cases h

end Collection

namespace Singleton

variable {b : BoundField} {replacing : Bool} {id : String} {value : Option Reference}
  {s : MemoryStore} {e : Error}

theorem set_error (hs : s.WellFormed) (hc : Path.IsAddress b.edgeContainer)
    (hfresh : s.FreshIds 1) {s' : MemoryStore}
    (h : set b replacing id value s = (.error e, s')) : s' = s := by
  cases hplan : (plan b replacing id value).answer s with
  | error e' =>
    rw [set_of_answer_plan_error hplan] at h
    cases h
    rfl
  | ok p =>
    obtain ⟨written, hrun⟩ := set_of_answer_plan_ok hs hc hfresh hplan
    rw [hrun] at h
    cases h

end Singleton

/-! ### Documents -/

namespace Reference

/-- How many references the value of a field can hold at most. -/
def entries : Json → Nat
  | .arr xs => xs.length
  | _ => 1

theorem length_of_listOfJson {value : Json} {rs : List Reference}
    (h : listOfJson value = .ok rs) : rs.length ≤ entries value := by
  cases value with
  | null =>
    cases h
    exact Nat.zero_le 1
  | arr xs =>
    obtain ⟨g, rfl, _⟩ := Result.map_of_mapM_eq_ok h
    rw [List.length_map]
    exact Nat.le_refl _
  | bool _ => cases h
  | num _ => cases h
  | str _ => cases h
  | obj _ => cases h

theorem entries_of_optionOfJson {value : Json} {r : Option Reference}
    (h : optionOfJson value = .ok r) : entries value = 1 := by
  cases value with
  | arr xs => cases h
  | null => rfl
  | bool _ => cases h
  | num _ => cases h
  | str _ => cases h
  | obj _ => rfl

end Reference

namespace BoundField

/-- **A rejected write leaves the store exactly as it was**, whatever the value of the field
    and the cause of the rejection. -/
theorem setValue_error_leaves_store (b : BoundField) (replacing : Bool) (id : String)
    (value : Json) (s s' : MemoryStore) (e : Error) (hs : s.WellFormed)
    (hsettings : b.settings.Accepted) (hfresh : s.FreshIds (Reference.entries value))
    (h : b.setValue replacing id value s = (.error e, s')) : s' = s := by
  have hc : Path.IsAddress b.edgeContainer := hsettings.isAddress
  unfold setValue at h
  cases hcardinality : b.field.cardinality with
  | collection =>
    simp only [hcardinality] at h
    cases hvalue : Reference.listOfJson value with
    | error e' =>
      rw [hvalue, ofResult_error_bind] at h
      cases h
      rfl
    | ok rs =>
      rw [hvalue, ofResult_ok_bind] at h
      have hcount : rs.countP (·.edgeId?.isNone) ≤ Reference.entries value :=
        Nat.le_trans List.countP_le_length (Reference.length_of_listOfJson hvalue)
      exact Collection.set_error hs hc (hfresh.mono hcount) (of_map_eq_error h)
  | single =>
    simp only [hcardinality] at h
    cases hvalue : Reference.optionOfJson value with
    | error e' =>
      rw [hvalue, ofResult_error_bind] at h
      cases h
      rfl
    | ok r =>
      rw [hvalue, ofResult_ok_bind] at h
      rw [Reference.entries_of_optionOfJson hvalue] at hfresh
      exact Singleton.set_error hs hc hfresh (of_map_eq_error h)

/-- A user is given a role that does not exist. -/
theorem setValue_error_leaves_store_missingRole :
    ∃ e s', Sample.roles.setValue true "1" Sample.missingRole Sample.store = (.error e, s') ∧
      s' = Sample.store := by
  have hrejected : (Sample.roles.setValue true "1" Sample.missingRole Sample.store).1.isOk =
      false := by
    decide +kernel
  rcases h : Sample.roles.setValue true "1" Sample.missingRole Sample.store with ⟨e | written, s'⟩
  · exact ⟨e, s', rfl, setValue_error_leaves_store Sample.roles true "1" Sample.missingRole
      Sample.store s' e Sample.wellFormed_store Sample.accepted_roles Sample.freshIds_store h⟩
  · rw [h] at hrejected
    cases hrejected

end BoundField

end EdgeFields
