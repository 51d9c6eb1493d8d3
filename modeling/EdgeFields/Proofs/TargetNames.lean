/-
  EdgeFields/Proofs/TargetNames.lean
  ==================================
  **The names that a field takes for one resource.**

  Slashes are read in four ways. The shape of a target is judged without the slashes in front, an
  allowed container is compared with it without the slashes at its own end, a store trims both
  ends, and the identity of a reference takes the target as it is written.

  A target that passes has no slash at its end and no empty segment behind the slashes in front
  (`BoundField.isWellFormedTarget_iff`). So all names of one record that a field takes are one
  path with slashes in front, and what tells two of them apart is how many these are
  (`Path.fronted_inj`). A field that allows all containers takes any number of them; a field that
  lists its containers takes as many as the container is listed with. Each resource has one name
  exactly in the fields that list every container in one spelling (`Field.spelledOnce_iff`).
-/
import EdgeFields.Engine.Value
import EdgeFields.Proofs.PointerText
import EdgeFields.Proofs.Reachable
import EdgeFields.Proofs.Rejection

namespace EdgeFields

/-! ### Slashes in front -/

namespace Path

/-- A path with slashes in front. -/
def fronted (n : Nat) (path : String) : String :=
  String.ofList (List.replicate n '/' ++ path.toList)

theorem fronted_inj {n n' : Nat} {path : String} : fronted n path = fronted n' path ↔ n = n' := by
  refine ⟨fun h => ?_, fun h => by rw [h]⟩
  have hlength := congrArg (fun s => s.toList.length) h
  simpa [fronted] using hlength

/-- An address is its trimmed path with slashes in front. -/
theorem IsAddress.exists_fronted {path : String} (h : IsAddress path) :
    ∃ n, path = fronted n (trim path) := by
  have hslashes : path.toList.takeWhile (· == '/') =
      List.replicate (path.toList.takeWhile (· == '/')).length '/' := by
    rw [List.eq_replicate_iff]
    refine ⟨rfl, fun c hc => ?_⟩
    simpa using List.all_eq_true.1 List.all_takeWhile c hc
  refine ⟨(path.toList.takeWhile (· == '/')).length, ?_⟩
  rw [← String.toList_inj, fronted, String.toList_ofList, h.toList_trim, ← hslashes,
    List.takeWhile_append_dropWhile]

/-- A container of which no segment behind the slashes in front is empty. -/
def IsUnbroken (c : String) : Prop := [] ∉ Text.pieces '/' (c.toList.dropWhile (· == '/'))

instance (c : String) : Decidable (IsUnbroken c) := inferInstanceAs (Decidable (¬_))

theorem IsUnbroken.dropWhile_ne_nil {c : String} (h : IsUnbroken c) :
    c.toList.dropWhile (· == '/') ≠ [] := by
  intro hnil
  unfold IsUnbroken at h
  rw [hnil] at h
  exact h List.mem_cons_self

/-- A slash at the end would leave an empty segment behind it. -/
theorem IsUnbroken.isAddress {c : String} (h : IsUnbroken c) : IsAddress c := by
  constructor
  · rintro rfl
    exact h.dropWhile_ne_nil rfl
  · intro hlast
    obtain ⟨front, hfront⟩ := List.dropWhile_suffix (l := c.toList) (· == '/')
    rw [← hfront, List.getLast?_append_of_ne_nil _ h.dropWhile_ne_nil,
      List.getLast?_eq_some_iff] at hlast
    obtain ⟨segments, hsegments⟩ := hlast
    apply h
    rw [hsegments, Text.pieces_append_separator]
    exact List.mem_append_right _ List.mem_cons_self

end Path

/-! ### Targets that pass -/

open EdgeFields.Path (IsId IsUnbroken)

namespace BoundField

variable {c id target : String}

theorem isWellFormedTarget_iff_pieces : isWellFormedTarget target = true ↔
    2 ≤ (Text.pieces '/' (target.toList.dropWhile (· == '/'))).length ∧
      [] ∉ Text.pieces '/' (target.toList.dropWhile (· == '/')) := by
  unfold isWellFormedTarget
  rw [Bool.and_eq_true, decide_eq_true_iff, List.all_eq_true]
  refine and_congr_right fun _ => ⟨fun hall hmem => ?_, fun hnil segment hsegment => ?_⟩
  · simpa using hall [] hmem
  · rw [Bool.not_eq_true', List.isEmpty_eq_false_iff]
    rintro rfl
    exact hnil hsegment

/-- The segments of an identifier in a container are those of the container and the identifier. -/
theorem isWellFormedTarget_join (hid : '/' ∉ id.toList) :
    isWellFormedTarget (Path.join c id) = true ↔ IsUnbroken c ∧ id ≠ "" := by
  rw [isWellFormedTarget_iff_pieces, Path.toList_join, List.dropWhile_append]
  split
  · -- Only slashes stand before the identifier: there is no container.
    rename_i hempty
    have hnil := List.isEmpty_iff.1 hempty
    have hdrop : ('/' :: id.toList).dropWhile (· == '/') = id.toList := by
      rw [List.dropWhile_cons, if_pos (beq_self_eq_true _)]
      exact Path.dropWhile_slash_of_head? fun hhead => hid (List.mem_of_head? hhead)
    rw [hdrop, Text.pieces_eq_singleton hid]
    simp [IsUnbroken, hnil, Text.pieces]
  · have hpos := List.length_pos_iff.2 (Text.pieces_ne_nil '/' (c.toList.dropWhile (· == '/')))
    have hnonempty : ¬[] = id.toList ↔ id ≠ "" := by
      rw [eq_comm, String.toList_eq_nil_iff]
    rw [Text.pieces_append_separator, Text.pieces_eq_singleton hid, List.length_append,
      List.length_singleton, List.mem_append, not_or, List.mem_singleton, hnonempty,
      and_iff_right (by omega)]
    rfl

/-- **A target is well formed if it is an identifier in an unbroken container.** -/
theorem isWellFormedTarget_iff :
    isWellFormedTarget target = true ↔ ∃ c id, IsUnbroken c ∧ IsId id ∧ target = Path.join c id := by
  constructor
  · intro h
    have hslash : '/' ∈ target.toList := by
      by_contra hnone
      have hnone' : '/' ∉ target.toList.dropWhile (· == '/') :=
        fun hmem => hnone ((List.dropWhile_sublist _).subset hmem)
      unfold isWellFormedTarget at h
      rw [Text.pieces_eq_singleton hnone'] at h
      cases h
    -- The target is split at its last slash.
    obtain ⟨id, c, hsplit, hid⟩ := List.eq_append_cons_of_mem (List.mem_reverse.2 hslash)
    have htarget : target = Path.join (String.ofList c.reverse) (String.ofList id.reverse) := by
      rw [← String.toList_inj, Path.toList_join, String.toList_ofList, String.toList_ofList,
        ← List.reverse_reverse target.toList, hsplit]
      simp
    have hid' : '/' ∉ (String.ofList id.reverse).toList := by
      rw [String.toList_ofList, List.mem_reverse]
      exact hid
    rw [htarget, isWellFormedTarget_join hid'] at h
    exact ⟨_, _, h.1, ⟨h.2, hid'⟩, htarget⟩
  · rintro ⟨c, id, hc, hid, rfl⟩
    exact (isWellFormedTarget_join hid.slashless).2 ⟨hc, hid.nonempty⟩

theorem isAddress_of_isWellFormedTarget (h : isWellFormedTarget target = true) :
    Path.IsAddress target := by
  obtain ⟨c, id, _, hid, rfl⟩ := isWellFormedTarget_iff.1 h
  exact hid.isAddress_join c

end BoundField

namespace Field

variable {f : Field} {c target : String}

/-- The allowed containers as targets are compared with them, without slashes at their ends. -/
def allowed (f : Field) : List String := f.collections.map (Text.trimEnd (· == '/'))

theorem afterText?_eq_some {front : String} {rest : List Char} :
    afterText? front target = some rest ↔ target.toList = front.toList ++ rest := by
  unfold afterText?
  constructor
  · intro h
    split at h
    · rename_i hstart
      obtain ⟨suffix, hsuffix⟩ := List.isPrefixOf_iff_prefix.1 hstart
      rw [← hsuffix, ← String.length_toList, List.drop_left] at h
      rw [← hsuffix, Option.some.inj h]
    · cases h
  · intro h
    have hstart : front.toList.isPrefixOf target.toList = true :=
      List.isPrefixOf_iff_prefix.2 ⟨rest, h.symm⟩
    rw [if_pos hstart, h, ← String.length_toList, List.drop_left]

theorem lieIn_iff : lieIn c target = true ↔
    ∃ id, IsId id ∧ target = Path.join (Text.trimEnd (· == '/') c) id := by
  unfold lieIn
  constructor
  · intro h
    split at h
    · rename_i rest hafter
      rw [afterText?_eq_some] at hafter
      simp only [Bool.and_eq_true, Bool.not_eq_true', List.isEmpty_eq_false_iff,
        List.contains_eq_mem, decide_eq_false_iff_not] at h
      refine ⟨String.ofList rest, ⟨?_, ?_⟩, ?_⟩
      · intro he
        exact h.1 (by simpa using congrArg String.toList he)
      · rw [String.toList_ofList]
        exact h.2
      · rw [← String.toList_inj, Path.toList_join, String.toList_ofList, hafter]
    · cases h
  · rintro ⟨id, hid, rfl⟩
    have hne : id.toList ≠ [] := fun he => hid.nonempty (String.toList_eq_nil_iff.1 he)
    rw [afterText?_eq_some.2 (Path.toList_join _ id)]
    simp [hne, hid.slashless]

theorem accepts_iff : f.accepts target = true ↔
    f.collections = [] ∨ ∃ c ∈ f.allowed, ∃ id, IsId id ∧ target = Path.join c id := by
  simp only [accepts, Bool.or_eq_true, List.isEmpty_iff, List.any_eq_true, lieIn_iff, allowed,
    List.mem_map, exists_exists_and_eq_and]

/-- A target that the field takes. -/
structure Takes (f : Field) (target : String) : Prop where
  wellFormed : BoundField.isWellFormedTarget target = true
  accepted : f.accepts target = true

/-- The field lists its containers, and each of those that a target can lie in with the same
    slashes in front whenever it lists it. -/
structure SpelledOnce (f : Field) : Prop where
  listed : f.collections ≠ []
  apart : ∀ c ∈ f.allowed, ∀ c' ∈ f.allowed, IsUnbroken c → IsUnbroken c' →
    Path.trim c = Path.trim c' → c = c'

theorem takes_join (hc : c ∈ f.allowed) (hunbroken : IsUnbroken c) {id : String} (hid : IsId id) :
    f.Takes (Path.join c id) where
  wellFormed := BoundField.isWellFormedTarget_iff.2 ⟨c, id, hunbroken, hid, rfl⟩
  accepted := accepts_iff.2 (.inr ⟨c, hc, id, hid, rfl⟩)

theorem Takes.exists_join (h : f.Takes target) (hlisted : f.collections ≠ []) :
    ∃ c ∈ f.allowed, ∃ id, IsUnbroken c ∧ IsId id ∧ target = Path.join c id := by
  obtain ⟨c, hc, id, hid, rfl⟩ := (accepts_iff.1 h.accepted).resolve_left hlisted
  have hunbroken := ((BoundField.isWellFormedTarget_join hid.slashless).1 h.wellFormed).1
  exact ⟨c, hc, id, hunbroken, hid, rfl⟩

/-- **A field takes one spelling of every path exactly if it lists every container in one.** -/
theorem spelledOnce_iff : f.SpelledOnce ↔
    ∀ target target', f.Takes target → f.Takes target' → Path.trim target = Path.trim target' →
      target = target' := by
  constructor
  · intro h target target' ht ht' hsame
    obtain ⟨c, hc, id, hunbroken, hid, rfl⟩ := ht.exists_join h.listed
    obtain ⟨c', hc', id', hunbroken', hid', rfl⟩ := ht'.exists_join h.listed
    rw [hunbroken.isAddress.trim_join hid, hunbroken'.isAddress.trim_join hid',
      Path.join_inj hunbroken.isAddress.isContainer_trim hunbroken'.isAddress.isContainer_trim
        hid hid'] at hsame
    rw [h.apart c hc c' hc' hunbroken hunbroken' hsame.1, hsame.2]
  · intro h
    constructor
    · intro hall
      have htakes : ∀ target, BoundField.isWellFormedTarget target = true → f.Takes target :=
        fun target hwell => ⟨hwell, accepts_iff.2 (.inl hall)⟩
      have hsame := h "a/b" "/a/b" (htakes _ (by decide)) (htakes _ (by decide)) (by decide)
      exact absurd hsame (by decide)
    · intro c hc c' hc' hunbroken hunbroken' hsame
      have hid : IsId "x" := ⟨by decide, by decide⟩
      refine Path.join_left_inj.1 (h _ _ (takes_join hc hunbroken hid)
        (takes_join hc' hunbroken' hid) ?_)
      rw [hunbroken.isAddress.trim_join hid, hunbroken'.isAddress.trim_join hid, hsame]

end Field

/-! ### Names of records -/

namespace MemoryStore

variable {s : MemoryStore} {path path' key : String}

/-- A path leads to the record that is kept under a key. -/
structure Names (s : MemoryStore) (path key : String) : Prop where
  trim : Path.trim path = key
  reads : ∃ record, s.read path = .ok record

theorem read_congr {record : Record} (hsame : Path.trim path' = Path.trim path)
    (h : s.read path = .ok record) : s.read path' = .ok record := by
  obtain ⟨c, id, r, hsplit, hget, hrecord⟩ := read_eq_ok_iff.1 h
  rw [← Path.split?_congr hsame] at hsplit
  rw [← hsame] at hget
  exact read_eq_ok_iff.2 ⟨c, id, r, hsplit, hget, hrecord⟩

theorem Names.congr (h : s.Names path key) (hsame : Path.trim path' = Path.trim path) :
    s.Names path' key := by
  obtain ⟨record, hread⟩ := h.reads
  exact ⟨hsame.trans h.trim, record, read_congr hsame hread⟩

end MemoryStore

namespace BoundField

variable {b : BoundField} {r r' : Reference} {target : String}

/-- References to one record that pass the check of shapes, with the same properties, are the
    same relationship. -/
def OneName (b : BoundField) : Prop :=
  ∀ (s : MemoryStore) (r r' : Reference) (target target' key : String),
    b.checkShape r = .ok () → b.checkShape r' = .ok () →
    r.target = some target → r'.target = some target' →
    s.Names target key → s.Names target' key →
    r.edgeProperties = r'.edgeProperties → r.identity = r'.identity

theorem checkShape_eq_ok (htarget : r.target = some target) : b.checkShape r = .ok () ↔
    b.field.Takes target ∧
      ∀ schema, b.field.schema = some schema → Schema.validate schema r.properties = .ok () := by
  unfold checkShape targetOf
  simp only [htarget, Result.ok_bind]
  by_cases hwell : isWellFormedTarget target = true
  · by_cases haccepts : b.field.accepts target = true
    · have htakes : b.field.Takes target := ⟨hwell, haccepts⟩
      simp only [hwell, haccepts, htakes, true_and]
      cases b.field.schema with
      | none => simp [pure, Except.pure]
      | some schema => simp [Result.mapError_eq_ok]
    · have hrefused : ¬b.field.Takes target := fun h => haccepts h.accepted
      simp [hwell, haccepts, hrefused, Result.bind_eq_ok, throw, throwThe, MonadExceptOf.throw]
  · have hrefused : ¬b.field.Takes target := fun h => hwell h.wellFormed
    simp [hwell, hrefused, Result.bind_eq_ok, throw, throwThe, MonadExceptOf.throw]

theorem identity_eq_iff (hproperties : r.edgeProperties = r'.edgeProperties) :
    r.identity = r'.identity ↔ r.target = r'.target := by
  unfold Reference.identity
  rw [hproperties, Reference.Identity.mk.injEq, and_iff_left rfl]

/-- **A field that takes references has one name for every resource exactly if it lists every
    container in one spelling.** -/
theorem oneName_iff (htaken : ∃ r, b.checkShape r = .ok ()) : b.OneName ↔ b.field.SpelledOnce := by
  rw [Field.spelledOnce_iff]
  constructor
  · intro h target target' ht ht' hsame
    obtain ⟨r, hr⟩ := htaken
    obtain ⟨_, htarget⟩ := checkShape_target hr
    have hschema := ((checkShape_eq_ok htarget).1 hr).2
    let s := MemoryStore.empty.put (Path.trim target) []
    have hread : s.Names target (Path.trim target) := by
      obtain ⟨c, id, hc, hid, rfl⟩ := isWellFormedTarget_iff.1 ht.wellFormed
      exact ⟨rfl, _, MemoryStore.read_eq_ok_iff.2 ⟨_, _, _, hc.isAddress.split?_join hid,
        MemoryStore.get?_put_self _ _ _, rfl⟩⟩
    have hread' : s.Names target' (Path.trim target) := hread.congr hsame.symm
    have hidentity := h s { r with target := some target } { r with target := some target' }
      target target' (Path.trim target) ((checkShape_eq_ok rfl).2 ⟨ht, hschema⟩)
      ((checkShape_eq_ok rfl).2 ⟨ht', hschema⟩) rfl rfl hread hread' rfl
    exact Option.some.inj (congrArg Reference.Identity.target hidentity)
  · intro h s r r' target target' key hr hr' htarget htarget' hread hread' hproperties
    have ht := ((checkShape_eq_ok htarget).1 hr).1
    have ht' := ((checkShape_eq_ok htarget').1 hr').1
    rw [identity_eq_iff hproperties, htarget, htarget',
      h target target' ht ht' (hread.trim.trans hread'.trim.symm)]

/-- **Two references to one record, with the same properties, are told apart by the slashes in
    front of their targets only**, and pass the check for repetitions together exactly if these
    differ. That they never do is so exactly of the fields that list every container in one
    spelling. -/
theorem identity_eq_iff_of_names (b : BoundField) (s : MemoryStore) (r r' : Reference)
    (target target' key : String) (hr : b.checkShape r = .ok ()) (hr' : b.checkShape r' = .ok ())
    (htarget : r.target = some target) (htarget' : r'.target = some target')
    (hread : s.Names target key) (hread' : s.Names target' key)
    (hproperties : r.edgeProperties = r'.edgeProperties) :
    (∃ n n', target = Path.fronted n key ∧ target' = Path.fronted n' key ∧
      (r.identity = r'.identity ↔ n = n') ∧
      (Reference.checkDistinct [r, r'] = .ok () ↔ n ≠ n')) ∧
    (b.OneName ↔ b.field.SpelledOnce) := by
  have hfronted : ∀ {target : String}, b.field.Takes target → s.Names target key →
      ∃ n, target = Path.fronted n key := by
    intro target ht hnames
    rw [← hnames.trim]
    exact (isAddress_of_isWellFormedTarget ht.wellFormed).exists_fronted
  obtain ⟨n, hn⟩ := hfronted ((checkShape_eq_ok htarget).1 hr).1 hread
  obtain ⟨n', hn'⟩ := hfronted ((checkShape_eq_ok htarget').1 hr').1 hread'
  have hidentity : r.identity = r'.identity ↔ n = n' := by
    rw [identity_eq_iff hproperties, htarget, htarget', hn, hn', Option.some.injEq,
      Path.fronted_inj]
  refine ⟨⟨n, n', hn, hn', hidentity, ?_⟩, oneName_iff ⟨r, hr⟩⟩
  rw [Reference.checkDistinct_eq_ok, ne_eq, ← hidentity]
  simp

end BoundField

/-! ### A role under two names -/

namespace Sample

/-- The roles of users, which are in one container. -/
def listedRoles : BoundField :=
  { roles with field := { roles.field with collections := ["managed/role/", "managed/role"] } }

/-- A role as the field of a user has it, and as it is sent again. -/
def heldRole : Reference :=
  { id := some "e1", target := some "managed/role/1", properties := [("_id", .str "e1")] }

def sentRole : Reference := { target := some "managed/role/1" }

/-- The role under its name with a slash in front. -/
def slashedRole : Reference := { target := some "/managed/role/1" }

end Sample

namespace BoundField

open Sample

/-- In a field that lists its container, a role that is sent again is the one that is held. -/
theorem identity_eq_iff_of_names_listed :
    listedRoles.OneName ∧ heldRole.identity = sentRole.identity := by
  have hspelled : listedRoles.field.SpelledOnce := ⟨by decide, by decide +kernel⟩
  have hread : Sample.store.Names "managed/role/1" "managed/role/1" := ⟨by decide, _, rfl⟩
  have hone : listedRoles.OneName := (identity_eq_iff_of_names listedRoles Sample.store heldRole
    sentRole "managed/role/1" "managed/role/1" "managed/role/1" rfl rfl rfl rfl hread hread
    rfl).2.2 hspelled
  exact ⟨hone, hone Sample.store heldRole sentRole "managed/role/1" "managed/role/1"
    "managed/role/1" rfl rfl rfl rfl hread hread rfl⟩

/-- **A role has several names**: with and without a slash in front it is taken, read and assigned
    to one user twice in one request. -/
theorem role_has_two_names :
    roles.checkShape sentRole = .ok () ∧ roles.checkShape slashedRole = .ok () ∧
    seeds.Names "managed/role/1" "managed/role/1" ∧
    seeds.Names "/managed/role/1" "managed/role/1" ∧
    sentRole.edgeProperties = slashedRole.edgeProperties ∧
    sentRole.identity ≠ slashedRole.identity ∧
    ¬roles.OneName ∧
    (Collection.set roles true "1" [sentRole, slashedRole] seeds).1.toOption.map
        (fun written => written.map Reference.target) =
      some [some "managed/role/1", some "/managed/role/1"] := by
  have hread : seeds.Names "managed/role/1" "managed/role/1" := ⟨by decide, _, rfl⟩
  have hread' : seeds.Names "/managed/role/1" "managed/role/1" := ⟨by decide, _, rfl⟩
  have hne : sentRole.identity ≠ slashedRole.identity := by decide
  refine ⟨rfl, rfl, hread, hread', rfl, hne, ?_, by decide +kernel⟩
  intro hone
  exact hne (hone seeds sentRole slashedRole _ _ _ rfl rfl rfl rfl hread hread' rfl)

end BoundField

end EdgeFields
