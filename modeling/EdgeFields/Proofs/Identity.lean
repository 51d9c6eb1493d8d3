/-
  EdgeFields/Proofs/Identity.lean
  ===============================
  **The identity of references.**

  Two references are one relationship if they have the same target and, but for the bookkeeping
  among them, the same properties (`Reference.Equivalent`). The identity of a reference says the
  same in texts. It takes no account of the identifier or the revision of an edge, wherever the
  reference has them.
-/
import EdgeFields.Proofs.JsonText
import EdgeFields.Proofs.Reference

namespace EdgeFields

/-! ### Properties -/

namespace Record

theorem get?_withoutBookkeeping (ms : Members) {name : String} (hid : name ≠ idKey)
    (hrevision : name ≠ revisionKey) :
    Dict.get? (withoutBookkeeping ms) name = Dict.get? ms name := by
  unfold withoutBookkeeping
  rw [Dict.get?_erase_of_ne (Ne.symm hrevision), Dict.get?_erase_of_ne (Ne.symm hid)]

theorem withoutBookkeeping_eq_iff {ms ns : Members} (hms : Dict.Sorted ms) (hns : Dict.Sorted ns) :
    withoutBookkeeping ms = withoutBookkeeping ns ↔
      ∀ name, name ≠ idKey → name ≠ revisionKey → Dict.get? ms name = Dict.get? ns name := by
  constructor
  · intro heq name hid hrevision
    rw [← get?_withoutBookkeeping ms hid hrevision, heq, get?_withoutBookkeeping ns hid hrevision]
  · intro h
    refine Dict.Sorted.ext hms.erase.erase hns.erase.erase fun name => ?_
    have hplain := plain_withoutBookkeeping
    by_cases hid : name = idKey
    · rw [hid]
      exact (hplain ms).id.trans (hplain ns).id.symm
    · by_cases hrevision : name = revisionKey
      · rw [hrevision]
        exact (hplain ms).revision.trans (hplain ns).revision.symm
      · have hname := h name hid hrevision
        rwa [← get?_withoutBookkeeping ms hid hrevision,
          ← get?_withoutBookkeeping ns hid hrevision] at hname

end Record

/-! ### Identity -/

namespace Reference

/-- Two references have one target and the same properties, bookkeeping apart. -/
structure Equivalent (a b : Reference) : Prop where
  target : a.target = b.target
  properties : ∀ name, name ≠ Record.idKey → name ≠ Record.revisionKey →
    Dict.get? a.properties name = Dict.get? b.properties name

/-- A reference without identifiers, revisions and members of the referenced resource. -/
def relationship (r : Reference) : Reference :=
  { target := r.target, properties := r.edgeProperties }

variable {a b : Reference}

theorem identity_eq_iff_edgeProperties :
    a.identity = b.identity ↔ a.target = b.target ∧ a.edgeProperties = b.edgeProperties := by
  unfold identity
  rw [Identity.mk.injEq, Json.text_inj, Json.obj.injEq]

theorem equivalent_iff (ha : Dict.Sorted a.properties) (hb : Dict.Sorted b.properties) :
    a.Equivalent b ↔ a.identity = b.identity := by
  have hproperties := Record.withoutBookkeeping_eq_iff ha hb
  rw [identity_eq_iff_edgeProperties]
  exact ⟨fun h => ⟨h.target, hproperties.2 h.properties⟩, fun h => ⟨h.1, hproperties.1 h.2⟩⟩

theorem identity_relationship (r : Reference) : r.relationship.identity = r.identity :=
  identity_eq_iff_edgeProperties.2 ⟨rfl, r.plain_edgeProperties.withoutBookkeeping_eq⟩

/-- **The identity of a reference is its target and its properties.**  A list passes the check
    exactly if no two references in it agree in them, whatever their order and their edges. -/
theorem identity_eq_iff_equivalent :
    (∀ a b : Reference, Dict.Sorted a.properties → Dict.Sorted b.properties →
      (a.identity = b.identity ↔ a.Equivalent b)) ∧
    (∀ rs : List Reference, (∀ r ∈ rs, Dict.Sorted r.properties) →
      (checkDistinct rs = .ok () ↔ rs.Pairwise fun a b => ¬a.Equivalent b)) ∧
    ∀ rs rs' : List Reference, (rs.map relationship).Perm (rs'.map relationship) →
      (checkDistinct rs = .ok () ↔ checkDistinct rs' = .ok ()) := by
  refine ⟨?_, ?_, ?_⟩
  · intro a b ha hb
    exact (equivalent_iff ha hb).symm
  · intro rs hsorted
    rw [checkDistinct_eq_ok, List.pairwise_map]
    exact List.Pairwise.iff_of_mem fun ha hb =>
      not_congr (equivalent_iff (hsorted _ ha) (hsorted _ hb)).symm
  · intro rs rs' hperm
    have hidentities : ∀ rs : List Reference,
        rs.map identity = (rs.map relationship).map identity := by
      intro rs
      rw [List.map_map]
      exact List.map_congr_left fun r _ => (identity_relationship r).symm
    rw [checkDistinct_eq_ok, checkDistinct_eq_ok, hidentities rs, hidentities rs']
    exact (hperm.map identity).pairwise_iff fun h => Ne.symm h

/-- A reference to one resource with a weight among its properties. -/
def weighing (id : Option String) (weight : Number) : Reference where
  id := id
  target := some "managed/role/1"
  properties := Dict.insert? Record.idKey (id.map .str) [("weight", .num weight)]

theorem sorted_weighing (id : Option String) (weight : Number) :
    Dict.Sorted (weighing id weight).properties := by
  cases id with
  | none => exact List.pairwise_singleton _ _
  | some id => exact Dict.Sorted.insert (List.pairwise_singleton _ _)

theorem equivalent_weighing {id id' : Option String} {weight weight' : Number} :
    (weighing id weight).Equivalent (weighing id' weight') ↔ weight = weight' := by
  have hget : ∀ id weight name, name ≠ Record.idKey →
      Dict.get? (weighing id weight).properties name =
        Dict.get? [("weight", Json.num weight)] name := by
    intro id weight name hname
    rw [weighing, Dict.get?_insert?, if_neg (Ne.symm hname)]
  constructor
  · intro h
    have hweight := h.properties "weight" (by decide) (by decide)
    rw [hget _ _ _ (by decide), hget _ _ _ (by decide)] at hweight
    exact Json.num.inj (Option.some.inj hweight)
  · rintro rfl
    exact ⟨rfl, fun name hid _ => by rw [hget _ _ _ hid, hget _ _ _ hid]⟩

/-- The identifier of an edge plays no part.  A weight of zero differs from one of minus zero and
    from an integer. -/
theorem identity_eq_iff_equivalent_weighing :
    (weighing (some "e1") (.int 0)).identity = (weighing none (.int 0)).identity ∧
    checkDistinct [weighing none (.float (.zero false)), weighing none (.float (.zero true)),
      weighing none (.int 0)] = .ok () ∧
    checkDistinct [weighing (some "e1") (.int 0), weighing (some "e2") (.float (.zero true)),
      weighing (some "e3") (.float (.zero false))] = .ok () := by
  obtain ⟨hidentity, hdistinct, hperm⟩ := identity_eq_iff_equivalent
  have hok : checkDistinct [weighing none (.float (.zero false)),
      weighing none (.float (.zero true)), weighing none (.int 0)] = .ok () := by
    refine (hdistinct _ ?_).2 ?_
    · intro r hr
      simp only [List.mem_cons, List.not_mem_nil, or_false] at hr
      rcases hr with rfl | rfl | rfl <;> exact sorted_weighing _ _
    · simp only [List.pairwise_cons, List.mem_cons, List.not_mem_nil, or_false,
        forall_eq_or_imp, forall_eq, equivalent_weighing, false_imp_iff, implies_true,
        List.Pairwise.nil, and_true]
      decide
  refine ⟨(hidentity _ _ (sorted_weighing _ _) (sorted_weighing _ _)).2 (equivalent_weighing.2 rfl),
    hok, (hperm _ _ ?_).1 hok⟩
  -- without their identifiers these are the same three, last one first
  have hrelationship : ∀ id weight,
      (weighing (some id) weight).relationship = (weighing none weight).relationship := by
    intro id weight
    rfl
  simp only [List.map_cons, List.map_nil, hrelationship]
  exact (List.reverse_perm [_, _, _]).symm

end Reference

end EdgeFields
