/-
  EdgeFields/Proofs/Append.lean
  =============================
  **Which appends are refused as repetitions.**

  An append is meant to be refused when one of its references leads to a resource that the
  field is assigned already. Two assignments escape the check (`Collection.Escapes`): those
  of a reference whose identity the field has, since such references are not validated, and
  for a field that is not a reverse one those made from the other side, since only the
  first endpoint is looked at. `Collection.append_exact` proves that there are no others,
  and `Collection.append_repeats` that the first kind occurs.
-/
import EdgeFields.Proofs.Replace

namespace EdgeFields

open EngineM

namespace Collection

variable {b : BoundField} {id owner : String} {value : List Reference} {s : MemoryStore}
  {es : List Edge} {r : Reference}

/-! ### Repetitions -/

/-- The field of an owner has an edge with the identity of a reference. -/
def Known (b : BoundField) (owner : String) (s : MemoryStore) (r : Reference) : Prop :=
  ∃ id e, s.HasEdge b.edgeContainer id e ∧ e.involves owner b.field.name = true ∧
    (Reference.ofEdge e owner b.field.name).identity = r.identity

/-- A reference that the check on repetitions does not compare with an edge. -/
def Escapes (b : BoundField) (owner : String) (s : MemoryStore) (r : Reference) (e : Edge) :
    Prop :=
  Known b owner s r ∨ b.looksAt owner e = false

/-- Every edge at the field that a reference of the value repeats escapes the check. -/
def OnlyEscapes (b : BoundField) (owner : String) (value : List Reference) (s : MemoryStore) :
    Prop :=
  ∀ r ∈ value, ∀ id e, s.HasEdge b.edgeContainer id e → e.involves owner b.field.name = true →
    b.Repeats owner r e → Escapes b owner s r e

theorem known_iff (hes : b.Existing owner s es) :
    Known b owner s r ↔ r.identity ∈ (b.formsOf owner es).map Reference.identity := by
  unfold Known BoundField.formsOf
  rw [List.map_map, List.mem_map]
  constructor
  · rintro ⟨id, e, hedge, hinvolves, hidentity⟩
    exact ⟨e, (hes.mem_iff.2 ⟨hedge, hinvolves⟩).1, hidentity⟩
  · rintro ⟨e, he, hidentity⟩
    obtain ⟨hinvolves, id, hedge⟩ := (hes.mem e).1 he
    exact ⟨id, e, hedge, hinvolves, hidentity⟩

/-- The edges that the check compares a reference with and that it repeats. -/
theorem answer_checkUnassigned_eq_ok (hs : s.WellFormed) (hc : Path.IsAddress b.edgeContainer)
    (hfound : (b.existingEdges owner).answer s = .ok es) {target : String}
    (htarget : r.target = some target) :
    (b.checkUnassigned owner target r).answer s = .ok () ↔
      ∀ e ∈ es, b.Repeats owner r e → b.looksAt owner e = false := by
  rw [BoundField.answer_checkUnassigned hs hc hfound]
  split
  · rename_i hrepeated
    obtain ⟨e, he, hlooks, hopposite, hother⟩ := hrepeated
    simp only [reduceCtorEq, false_iff]
    intro hnone
    have hnot := hnone e he ⟨by rw [htarget, hopposite], hother⟩
    rw [hlooks] at hnot
    cases hnot
  · rename_i hnone
    simp only [true_iff]
    rintro e he ⟨hopposite, hother⟩
    cases hlooks : b.looksAt owner e with
    | false => rfl
    | true =>
      rw [htarget, Option.some.injEq] at hopposite
      exact absurd ⟨e, he, hlooks, hopposite.symm, hother⟩ hnone

/-- **The references of a valid addition repeat only what escapes the check.** -/
theorem onlyEscapes_of_valid (hs : s.WellFormed) (hc : Path.IsAddress b.edgeContainer)
    (hfound : (b.existingEdges owner).answer s = .ok es)
    (hvalid : (b.validateNew owner true (b.formsOf owner es) value).answer s = .ok ()) :
    OnlyEscapes b owner value s := by
  have hexisting := BoundField.existing_of_answer hs hc hfound
  intro r hr id e hedge hinvolves hrepeats
  by_cases hknown : Known b owner s r
  · exact .inl hknown
  · right
    have hreference := (BoundField.answer_validateNew_eq_ok.1 hvalid).2 r hr
      fun hmem => hknown ((known_iff hexisting).2 hmem)
    rw [BoundField.answer_validateReference, hrepeats.target, Result.bind_eq_ok] at hreference
    obtain ⟨_, _, hreference⟩ := hreference
    obtain ⟨_, _, hunassigned⟩ := Result.bind_eq_ok.1 hreference
    exact (answer_checkUnassigned_eq_ok hs hc hfound hrepeats.target).1 hunassigned e
      (hexisting.mem_iff.2 ⟨hedge, hinvolves⟩).1 hrepeats

/-! ### The other checks -/

/-- A value that passes every check but the one on repetitions. -/
structure Admissible (b : BoundField) (owner : String) (value : List Reference)
    (s : MemoryStore) : Prop where
  distinct : Reference.checkDistinct value = .ok ()
  shapes : ∀ r ∈ value, b.checkShape r = .ok ()
  owned : (BoundField.checkOwner owner).answer s = .ok ()
  readable : ∃ es, (b.existingEdges owner).answer s = .ok es
  referents : ∀ r ∈ value, ¬Known b owner s r →
    (b.checkReferent (r.target.getD "")).answer s = .ok ()
  named : ∀ r ∈ value, ∀ id, r.edgeId? = some id →
    ∃ e, s.HasEdge b.edgeContainer id e ∧ e.involves owner b.field.name = true

namespace Admissible

theorem answer_validateReference (h : Admissible b owner value s) (hr : r ∈ value)
    (hunknown : ¬Known b owner s r) :
    (b.validateReference owner true r).answer s =
      (b.checkUnassigned owner (r.target.getD "") r).answer s := by
  rw [BoundField.answer_validateReference, h.shapes r hr, h.referents r hr hunknown]
  rfl

theorem valid_iff (h : Admissible b owner value s) (hs : s.WellFormed)
    (hc : Path.IsAddress b.edgeContainer)
    (hfound : (b.existingEdges owner).answer s = .ok es) :
    (b.validateNew owner true (b.formsOf owner es) value).answer s = .ok () ↔
      OnlyEscapes b owner value s := by
  have hexisting := BoundField.existing_of_answer hs hc hfound
  constructor
  · exact onlyEscapes_of_valid hs hc hfound
  · intro hescapes
    refine BoundField.answer_validateNew_eq_ok.2 ⟨h.distinct, ?_⟩
    intro r hr hnew
    have hunknown : ¬Known b owner s r := fun hknown => hnew ((known_iff hexisting).1 hknown)
    obtain ⟨target, htarget⟩ := BoundField.checkShape_target (h.shapes r hr)
    rw [h.answer_validateReference hr hunknown, htarget]
    refine (answer_checkUnassigned_eq_ok hs hc hfound htarget).2 ?_
    intro e he hrepeats
    obtain ⟨id, hid, hedge⟩ := hexisting.hasEdge he
    exact (hescapes r hr id e hedge ((hexisting.mem e).1 he).1 hrepeats).resolve_left hunknown

theorem kind_of_invalid (h : Admissible b owner value s) (hs : s.WellFormed)
    (hc : Path.IsAddress b.edgeContainer) (hfound : (b.existingEdges owner).answer s = .ok es)
    {e : Error}
    (hinvalid : (b.validateNew owner true (b.formsOf owner es) value).answer s = .error e) :
    e.kind = .validation := by
  have hexisting := BoundField.existing_of_answer hs hc hfound
  obtain ⟨r, hr, hnew, he⟩ :=
    BoundField.exists_of_answer_validateNew_eq_error h.distinct hinvalid
  have hunknown : ¬Known b owner s r := fun hknown => hnew ((known_iff hexisting).1 hknown)
  rw [h.answer_validateReference hr hunknown, BoundField.answer_checkUnassigned hs hc hfound] at he
  split at he
  · cases he
    rfl
  · cases he

theorem exists_writes (h : Admissible b owner value s) (hexisting : b.Existing owner s es) :
    ∃ ws, value.mapM (writeOf b owner es) = .ok ws := by
  apply Result.exists_mapM_eq_ok
  intro r hr
  obtain ⟨target, htarget⟩ := BoundField.checkShape_target (h.shapes r hr)
  cases hid : r.edgeId? with
  | none => exact ⟨_, (writeOf_eq_ok hexisting).2 (.create hid htarget)⟩
  | some id =>
    obtain ⟨e, hedge, hinvolves⟩ := h.named r hr id hid
    exact ⟨_, (writeOf_eq_ok hexisting).2 (.update hid hedge hinvolves htarget)⟩

/-- The write of an admissible value is refused as invalid or has a plan. -/
theorem answer_plan (h : Admissible b (b.ownerPath id) value s) (hs : s.WellFormed)
    (hc : Path.IsAddress b.edgeContainer) (hne : value ≠ [])
    (hfound : (b.existingEdges (b.ownerPath id)).answer s = .ok es) :
    (∀ e, (b.validateNew (b.ownerPath id) true (b.formsOf (b.ownerPath id) es) value).answer s =
        .error e → (plan b false id value).answer s = .error e) ∧
      ((b.validateNew (b.ownerPath id) true (b.formsOf (b.ownerPath id) es) value).answer s =
        .ok () → ∃ p, (plan b false id value).answer s = .ok p) := by
  have hexisting := BoundField.existing_of_answer hs hc hfound
  have hshapes := Result.forM_eq_ok_iff.2 h.shapes
  constructor
  · intro e hinvalid
    rw [Collection.answer_plan hne, h.distinct, hshapes, h.owned, hfound]
    simp only [bind, Except.bind]
    rw [show (!false) = true from rfl, hinvalid]
  · intro hvalid
    obtain ⟨ws, hws⟩ := h.exists_writes hexisting
    refine ⟨⟨(removed false es value).map BoundField.removalOf, ordered ws⟩,
      (answer_plan_eq_ok hs hc hne).2 ⟨es, ?_⟩⟩
    exact ⟨h.distinct, hshapes, h.owned, hfound, hvalid, ⟨ws, hws, rfl⟩, rfl⟩

end Admissible

/-! ### Appends -/

theorem onlyEscapes_of_set (hs : s.WellFormed) (hc : Path.IsAddress b.edgeContainer)
    (hne : value ≠ []) (hfresh : s.FreshIds (value.countP (·.edgeId?.isNone)))
    {written : List Reference} {s' : MemoryStore}
    (h : set b false id value s = (.ok written, s')) :
    OnlyEscapes b (b.ownerPath id) value s := by
  obtain ⟨p, hplan, _⟩ := exists_plan_of_set hs hc hfresh h
  obtain ⟨es, hplanned⟩ := (answer_plan_eq_ok hs hc hne).1 hplan
  exact onlyEscapes_of_valid hs hc hplanned.found hplanned.valid

/-- **An append is refused exactly for the repetitions that do not escape the check.** If it
    succeeds, all its repetitions escape. If it passes every other check, that is enough for
    it to succeed, and otherwise it is refused as invalid and nothing is written. -/
theorem append_exact (b : BoundField) (id : String) (value : List Reference) (s : MemoryStore)
    (hs : s.WellFormed) (hsettings : b.settings.Accepted)
    (hfresh : s.FreshIds (value.countP (·.edgeId?.isNone))) :
    (∀ written s', set b false id value s = (.ok written, s') →
      OnlyEscapes b (b.ownerPath id) value s) ∧
    (Admissible b (b.ownerPath id) value s →
      ((∃ written s', set b false id value s = (.ok written, s')) ↔
        OnlyEscapes b (b.ownerPath id) value s) ∧
      (¬OnlyEscapes b (b.ownerPath id) value s →
        ∃ e, e.kind = .validation ∧ set b false id value s = (.error e, s))) := by
  have hc : Path.IsAddress b.edgeContainer := hsettings.isAddress
  by_cases hne : value = []
  · subst hne
    have hescapes : OnlyEscapes b (b.ownerPath id) [] s := fun _ hr => (nomatch hr)
    exact ⟨fun _ _ _ => hescapes, fun _ => ⟨⟨fun _ => hescapes, fun _ => ⟨[], s, rfl⟩⟩,
      fun hnot => absurd hescapes hnot⟩⟩
  · refine ⟨fun written s' h => onlyEscapes_of_set hs hc hne hfresh h, fun hadmissible => ?_⟩
    obtain ⟨es, hfound⟩ := hadmissible.readable
    obtain ⟨hrefused, hplanned⟩ := hadmissible.answer_plan hs hc hne hfound
    have hvalid := hadmissible.valid_iff hs hc hfound
    constructor
    · constructor
      · rintro ⟨written, s', h⟩
        exact onlyEscapes_of_set hs hc hne hfresh h
      · intro hescapes
        obtain ⟨p, hplan⟩ := hplanned (hvalid.2 hescapes)
        obtain ⟨rs, hrun, _⟩ := set_of_answer_plan_ok hs hc hfresh hplan
        exact ⟨rs, _, hrun⟩
    · intro hnot
      cases hanswer : (b.validateNew (b.ownerPath id) true (b.formsOf (b.ownerPath id) es)
          value).answer s with
      | ok =>
        exact absurd (hvalid.1 hanswer) hnot
      | error e =>
        exact ⟨e, hadmissible.kind_of_invalid hs hc hfound hanswer,
          set_of_answer_plan_error (hrefused e hanswer)⟩

/-! ### Repetitions of a role -/

/-- The first role of the sample. -/
def firstRole : Reference := { target := some "managed/role/1" }

/-- **An append may repeat an assignment.** A user is given a role and then the same role
    again, with the same properties and without naming the edge; both writes succeed. -/
theorem append_repeats :
    ∃ written s₁ written' s₂ id e,
      set Sample.roles true "1" [firstRole] Sample.seeds = (.ok written, s₁) ∧
      set Sample.roles false "1" [firstRole] s₁ = (.ok written', s₂) ∧
      s₁.HasEdge Sample.roles.edgeContainer id e ∧
      e.involves (Sample.roles.ownerPath "1") Sample.roles.field.name = true ∧
      Sample.roles.Repeats (Sample.roles.ownerPath "1") firstRole e := by
  have hfirst : (set Sample.roles true "1" [firstRole] Sample.seeds).1.isOk = true := by
    decide +kernel
  have hsecond : (set Sample.roles false "1" [firstRole]
      (set Sample.roles true "1" [firstRole] Sample.seeds).2).1.isOk = true := by
    decide +kernel
  rcases h₁ : set Sample.roles true "1" [firstRole] Sample.seeds with ⟨e | written, s₁⟩
  · rw [h₁] at hfirst
    cases hfirst
  · rw [h₁] at hsecond
    rcases h₂ : set Sample.roles false "1" [firstRole] s₁ with ⟨e | written', s₂⟩
    · rw [h₂] at hsecond
      cases hsecond
    · have hfresh : Sample.seeds.FreshIds ([firstRole].countP (·.edgeId?.isNone)) :=
        Sample.freshIds_seeds
      have hreplaced := replaced_of_set Sample.wellFormed_seeds Sample.accepted_roles.isAddress
        (by decide) hfresh h₁
      obtain ⟨id, ⟨e, hadded⟩, _⟩ := hreplaced.created firstRole (List.mem_singleton.2 rfl) rfl
      refine ⟨written, s₁, written', s₂, id, e, rfl, h₂, hadded.stored, hadded.created.involves,
        hadded.created.target_eq, ?_⟩
      rw [hadded.stored.id_eq]
      exact Option.some_ne_none id

/-- The first role of the sample with a property that its edge does not have. -/
def grantedRole : Reference :=
  { target := some "managed/role/1", properties := [("grant", .str "direct")] }

theorem admissible_grantedRole :
    Admissible Sample.roles (Sample.roles.ownerPath "1") [grantedRole] Sample.store where
  distinct := rfl
  shapes := by
    intro r hr
    rw [List.mem_singleton.1 hr]
    obtain ⟨_, h⟩ := Result.eq_ok_of_isOk
      (show (Sample.roles.checkShape grantedRole).isOk = true by decide +kernel)
    exact h
  owned := by
    obtain ⟨_, h⟩ := Result.eq_ok_of_isOk (show ((BoundField.checkOwner
      (Sample.roles.ownerPath "1")).answer Sample.store).isOk = true by decide +kernel)
    exact h
  readable := Result.eq_ok_of_isOk (by decide +kernel)
  referents := by
    intro r hr _
    rw [List.mem_singleton.1 hr]
    obtain ⟨_, h⟩ := Result.eq_ok_of_isOk (show ((Sample.roles.checkReferent
      (grantedRole.target.getD "")).answer Sample.store).isOk = true by decide +kernel)
    exact h
  named := by
    intro r hr id hid
    rw [List.mem_singleton.1 hr] at hid
    cases hid

/-- With other properties the repetition is refused. -/
theorem append_exact_grantedRole :
    ∃ e, e.kind = .validation ∧
      set Sample.roles false "1" [grantedRole] Sample.store = (.error e, Sample.store) := by
  have hexact := append_exact Sample.roles "1" [grantedRole] Sample.store Sample.wellFormed_store
    Sample.accepted_roles Sample.freshIds_store
  obtain ⟨hiff, hrefused⟩ := hexact.2 admissible_grantedRole
  apply hrefused
  rw [← hiff]
  rintro ⟨written, s', h⟩
  have hok : (set Sample.roles false "1" [grantedRole] Sample.store).1.isOk = false := by
    decide +kernel
  rw [h] at hok
  cases hok

end Collection

end EdgeFields
