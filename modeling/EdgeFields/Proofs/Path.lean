/-
  EdgeFields/Proofs/Path.lean
  ===========================
  **The arithmetic of record paths.**

  Containers are trimmed before a path is made of them, identifiers hold no slash. A path
  made of such a pair is split into that pair again (`Path.split?_join`), so that two
  pairs never share a path (`Path.join_inj`), and an address made of an untrimmed
  container is trimmed to it (`Path.IsAddress.trim_join`).
-/
import EdgeFields.Settings.Basic
import EdgeFields.Store.Basic
import EdgeFields.Store.Ids

namespace EdgeFields

namespace Path

/-- A container as it may be addressed: not empty, and without slashes at its end. -/
structure IsAddress (c : String) : Prop where
  nonempty : c ≠ ""
  finish : c.toList.getLast? ≠ some '/'

/-- A container as paths have it: without slashes at its start either. -/
structure IsContainer (c : String) : Prop extends IsAddress c where
  start : c.toList.head? ≠ some '/'

/-- An identifier as paths have it: not empty, and without slashes. -/
structure IsId (id : String) : Prop where
  nonempty : id ≠ ""
  slashless : '/' ∉ id.toList

theorem toList_join (c id : String) : (join c id).toList = c.toList ++ '/' :: id.toList := by
  unfold join
  rw [String.toList_append, String.toList_append]
  simp

theorem toList_trim (c : String) :
    (trim c).toList =
      ((c.toList.dropWhile (· == '/')).reverse.dropWhile (· == '/')).reverse := by
  simp only [trim, Text.trimBoth, Text.trimEnd, Text.trimStart, String.toList_ofList]

/-! ### Trimming -/

private theorem head?_dropWhile_slash (cs : List Char) :
    (cs.dropWhile (· == '/')).head? ≠ some '/' := by
  intro h
  have hnot := List.head?_dropWhile_not (· == '/') cs
  rw [h] at hnot
  simp at hnot

theorem dropWhile_slash_of_head? {cs : List Char} (h : cs.head? ≠ some '/') :
    cs.dropWhile (· == '/') = cs := by
  cases cs with
  | nil => rfl
  | cons c cs =>
    have hc : c ≠ '/' := by simpa using h
    simp [hc]

/-- A text that ends in another character keeps its end when slashes at its start go. -/
private theorem getLast?_dropWhile_slash {cs : List Char} (h : cs.getLast? ≠ some '/') :
    (cs.dropWhile (· == '/')).getLast? = cs.getLast? := by
  induction cs with
  | nil => rfl
  | cons c cs ih =>
    rw [List.dropWhile_cons]
    split
    · rename_i hc
      have hc' : c = '/' := by simpa using hc
      subst hc'
      cases cs with
      | nil => simp at h
      | cons d cs =>
        rw [List.getLast?_cons_cons] at h ⊢
        exact ih h
    · rfl

private theorem dropWhile_slash_ne_nil {cs : List Char} (hne : cs ≠ [])
    (h : cs.getLast? ≠ some '/') : cs.dropWhile (· == '/') ≠ [] := by
  intro he
  have hlast := getLast?_dropWhile_slash h
  rw [he] at hlast
  exact hne (List.getLast?_eq_none_iff.1 hlast.symm)

theorem IsAddress.toList_trim {c : String} (h : IsAddress c) :
    (trim c).toList = c.toList.dropWhile (· == '/') := by
  rw [Path.toList_trim]
  have hlast := getLast?_dropWhile_slash h.finish
  have hhead : (c.toList.dropWhile (· == '/')).reverse.head? ≠ some '/' := by
    rw [List.head?_reverse, hlast]
    exact h.finish
  rw [dropWhile_slash_of_head? hhead, List.reverse_reverse]

theorem IsContainer.trim_eq {c : String} (h : IsContainer c) : trim c = c := by
  rw [← String.toList_inj, h.toIsAddress.toList_trim]
  exact dropWhile_slash_of_head? h.start

theorem IsAddress.toList_ne_nil {c : String} (h : IsAddress c) : c.toList ≠ [] :=
  fun he => h.nonempty (String.toList_eq_nil_iff.1 he)

/-- What is left of a container after trimming, if anything, is one as paths have it. -/
theorem isContainer_trim {c : String} (h : trim c ≠ "") : IsContainer (trim c) := by
  refine ⟨⟨h, ?_⟩, ?_⟩
  · rw [toList_trim, List.getLast?_reverse]
    exact head?_dropWhile_slash _
  · rw [toList_trim, List.head?_reverse]
    intro hlast
    have hsuffix : ((c.toList.dropWhile (· == '/')).reverse.dropWhile (· == '/')) <:+
        (c.toList.dropWhile (· == '/')).reverse := List.dropWhile_suffix _
    obtain ⟨front, hfront⟩ := hsuffix
    have hhead : (c.toList.dropWhile (· == '/')).head? = some '/' := by
      rw [← List.getLast?_reverse, ← hfront, List.getLast?_append, hlast]
      rfl
    exact head?_dropWhile_slash _ hhead

/-- An address is that of a container as paths have it. -/
theorem IsAddress.isContainer_trim {c : String} (h : IsAddress c) : IsContainer (trim c) := by
  refine Path.isContainer_trim fun he => ?_
  have hlist := h.toList_trim
  rw [he] at hlist
  exact dropWhile_slash_ne_nil h.toList_ne_nil h.finish hlist.symm

/-! ### Joining and splitting -/

theorem IsId.getLast?_join {id : String} (h : IsId id) (c : String) :
    (join c id).toList.getLast? ≠ some '/' := by
  rw [toList_join, List.getLast?_append]
  have hne : id.toList ≠ [] := fun he => h.nonempty (String.toList_eq_nil_iff.1 he)
  rw [List.getLast?_cons, List.getLast?_eq_some_getLast hne]
  intro hlast
  have hslash : id.toList.getLast hne = '/' := by simpa using hlast
  exact h.slashless (hslash ▸ List.getLast_mem hne)

theorem IsId.isAddress_join {id : String} (h : IsId id) (c : String) : IsAddress (join c id) := by
  refine ⟨fun he => ?_, h.getLast?_join c⟩
  have hnil := congrArg String.toList he
  simp [toList_join] at hnil

/-- **An address is trimmed to the path of the trimmed container.** -/
theorem IsAddress.trim_join {c id : String} (hc : IsAddress c) (hid : IsId id) :
    trim (join c id) = join (trim c) id := by
  rw [← String.toList_inj, (hid.isAddress_join c).toList_trim, toList_join, toList_join,
    hc.toList_trim, List.dropWhile_append, if_neg]
  simpa using dropWhile_slash_ne_nil hc.toList_ne_nil hc.finish

private theorem atLastSlash?_append {cs ds : List Char} (h : '/' ∉ ds) :
    atLastSlash? (cs ++ '/' :: ds) = some (cs, ds) := by
  have hall : ∀ d ∈ ds.reverse, (d != '/') = true := by
    intro d hd
    have hne : d ≠ '/' := fun he => h (he ▸ List.mem_reverse.1 hd)
    simpa using hne
  have hrev : (cs ++ '/' :: ds).reverse = ds.reverse ++ '/' :: cs.reverse := by simp
  unfold atLastSlash?
  rw [hrev, List.dropWhile_append_of_pos hall, List.takeWhile_append_of_pos hall]
  simp

/-- **An address is split into the trimmed container and the identifier.** -/
theorem IsAddress.split?_join {c id : String} (hc : IsAddress c) (hid : IsId id) :
    split? (join c id) = some (trim c, id) := by
  unfold split?
  rw [hc.trim_join hid, toList_join, atLastSlash?_append hid.slashless]
  have hc' : (trim c).toList ≠ [] := hc.isContainer_trim.toList_ne_nil
  have hid' : id.toList ≠ [] := fun he => hid.nonempty (String.toList_eq_nil_iff.1 he)
  simp [hc', hid', String.ofList_toList]

/-- **A path is split into the container and the identifier that it was made of.** -/
theorem split?_join {c id : String} (hc : IsContainer c) (hid : IsId id) :
    split? (join c id) = some (c, id) := by
  rw [hc.toIsAddress.split?_join hid, hc.trim_eq]

/-- Slashes at the ends do not matter. -/
theorem split?_congr {path path' : String} (h : trim path = trim path') :
    split? path = split? path' := by
  unfold split?
  rw [h]

/-- What a path is split off as an identifier is one. -/
theorem isId_of_split? {path c id : String} (h : split? path = some (c, id)) : IsId id := by
  unfold split? at h
  rcases hlast : atLastSlash? (trim path).toList with _ | ⟨front, ds⟩
  · rw [hlast] at h
    cases h
  · simp only [hlast, Bool.or_eq_true, List.isEmpty_iff, Option.ite_none_left_eq_some, not_or,
      Option.some.injEq, Prod.mk.injEq] at h
    obtain ⟨⟨_, hne⟩, _, rfl⟩ := h
    refine ⟨fun he => hne (by simpa using congrArg String.toList he), ?_⟩
    rw [String.toList_ofList]
    unfold atLastSlash? at hlast
    split at hlast
    · cases hlast
      intro hmem
      have hall := List.all_eq_true.1 List.all_takeWhile '/' (List.mem_reverse.1 hmem)
      simp at hall
    · cases hlast

theorem join_right_inj {c id id' : String} : join c id = join c id' ↔ id = id' := by
  refine ⟨fun h => ?_, fun h => by rw [h]⟩
  rw [← String.toList_inj, toList_join, toList_join] at h
  have htail := List.append_cancel_left h
  simpa [String.toList_inj] using htail

theorem join_left_inj {c c' id : String} : join c id = join c' id ↔ c = c' := by
  refine ⟨fun h => ?_, fun h => by rw [h]⟩
  rw [← String.toList_inj, toList_join, toList_join] at h
  exact String.toList_inj.1 (List.append_cancel_right h)

theorem join_inj {c c' id id' : String} (hc : IsContainer c) (hc' : IsContainer c')
    (hid : IsId id) (hid' : IsId id') : join c id = join c' id' ↔ c = c' ∧ id = id' := by
  refine ⟨fun h => ?_, fun ⟨h, h'⟩ => by rw [h, h']⟩
  have hsplit := split?_join hc hid
  rw [h, split?_join hc' hid'] at hsplit
  cases hsplit
  exact ⟨rfl, rfl⟩

end Path

/-! ### Assigned identifiers -/

namespace Ids

private theorem digitChar_ne_slash (n : Nat) : Nat.digitChar (n % 16) ≠ '/' := by
  have h : n % 16 < 16 := Nat.mod_lt _ (by decide)
  generalize n % 16 = k at h
  revert k
  decide

theorem slash_not_mem_hexDigits (count n : Nat) : '/' ∉ hexDigits count n := by
  induction count generalizing n with
  | zero => simp [hexDigits]
  | succ count ih =>
    rw [hexDigits, List.mem_append]
    rintro (h | h)
    · exact ih _ h
    · exact digitChar_ne_slash n (List.mem_singleton.1 h).symm

/-- An assigned identifier can stand in a path. -/
theorem isId_assigned (serial : Nat) : Path.IsId (assigned serial) := by
  have hmem : ∀ ds : List Char, '/' ∉ ds → ∀ a b, '/' ∉ (ds.drop a).take b := by
    intro ds hds a b h
    exact hds (List.mem_of_mem_drop (List.mem_of_mem_take h))
  have hdigits := slash_not_mem_hexDigits 30 serial
  refine ⟨?_, ?_⟩
  · intro he
    have hnil := congrArg String.toList he
    simp [assigned] at hnil
  · intro h
    simp only [assigned, String.toList_ofList, List.mem_append, List.mem_cons] at h
    have htake : '/' ∉ (hexDigits 30 serial).take 8 := fun h => hdigits (List.mem_of_mem_take h)
    have hdrop : '/' ∉ (hexDigits 30 serial).drop 18 := fun h => hdigits (List.mem_of_mem_drop h)
    have h4 := hmem _ hdigits 8 4
    have h3 := hmem _ hdigits 12 3
    have h15 := hmem _ hdigits 15 3
    simp_all

end Ids

/-! ### The container of the edges -/

/-- Settings of the engine that pass the check of settings. -/
def EngineSettings.Accepted (e : EngineSettings) : Prop :=
  ({ relationships := e } : Settings).check = .ok ()

namespace EngineSettings

/-- Accepted settings name a container for the edges. -/
theorem Accepted.isAddress {e : EngineSettings} (h : e.Accepted) :
    Path.IsAddress e.repositoryPath := by
  refine ⟨?_, ?_⟩
  · intro he
    simp [Accepted, Settings.check, he] at h
  · intro hlast
    simp only [Accepted, Settings.check, hlast] at h
    split at h <;> simp at h

end EngineSettings

end EdgeFields
