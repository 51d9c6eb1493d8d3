/-
  EdgeFields/Proofs/Dict.lean
  ===========================
  **What dictionaries hold.**

  A dictionary is known by its look-ups: what every operation does to them is stated
  here, and the other modules never look at entries again. The laws of `insert` and
  `erase` need no order. Two dictionaries in key order with the same look-ups are equal
  (`Dict.Sorted.ext`), and an entry is found under its key (`Dict.Sorted.mem_iff`).
-/
import EdgeFields.Dict

namespace EdgeFields

namespace Dict

variable {α : Type}

/-! ### Look-ups after an operation -/

@[simp] theorem get?_nil (key : String) : get? ([] : Dict α) key = none := rfl

theorem get?_cons (k : String) (v : α) (d : Dict α) (key : String) :
    get? ((k, v) :: d) key = if k = key then some v else get? d key := rfl

@[simp] theorem get?_insert_self (key : String) (value : α) (d : Dict α) :
    get? (insert key value d) key = some value := by
  induction d with
  | nil => simp [insert, get?_cons]
  | cons e d ih =>
    obtain ⟨k, v⟩ := e
    unfold insert
    split
    · simp [get?_cons]
    · split
      · simp [get?_cons]
      · rename_i hne
        rw [get?_cons, if_neg hne]
        exact ih

theorem get?_insert_of_ne {key k : String} (h : key ≠ k) (value : α) (d : Dict α) :
    get? (insert key value d) k = get? d k := by
  induction d with
  | nil => simp [insert, get?_cons, h]
  | cons e d ih =>
    obtain ⟨l, v⟩ := e
    unfold insert
    split
    · rw [get?_cons, if_neg h]
    · split
      · rename_i heq
        subst heq
        simp [get?_cons, h]
      · rw [get?_cons, get?_cons, ih]

theorem get?_insert (key k : String) (value : α) (d : Dict α) :
    get? (insert key value d) k = if key = k then some value else get? d k := by
  split
  · rename_i h
    subst h
    exact get?_insert_self key value d
  · rename_i h
    exact get?_insert_of_ne h value d

theorem get?_insert? (key k : String) (value : Option α) (d : Dict α) :
    get? (insert? key value d) k = if key = k then value.or (get? d k) else get? d k := by
  cases value with
  | none => simp [insert?]
  | some v => simp [insert?, get?_insert]

theorem get?_erase (key k : String) (d : Dict α) :
    get? (erase key d) k = if key = k then none else get? d k := by
  induction d with
  | nil => simp [erase]
  | cons e d ih =>
    obtain ⟨l, v⟩ := e
    unfold erase at ih ⊢
    by_cases h : l = key
    · subst h
      simp only [List.filter_cons, bne_self_eq_false, Bool.false_eq_true, if_false]
      rw [ih, get?_cons]
      by_cases hk : l = k <;> simp [hk]
    · simp only [List.filter_cons, bne_iff_ne, ne_eq, h, not_false_eq_true, if_true]
      rw [get?_cons, get?_cons, ih]
      by_cases hk : l = k
      · subst hk
        simp [Ne.symm h]
      · simp [hk]

@[simp] theorem get?_erase_self (key : String) (d : Dict α) : get? (erase key d) key = none := by
  simp [get?_erase]

theorem get?_erase_of_ne {key k : String} (h : key ≠ k) (d : Dict α) :
    get? (erase key d) k = get? d k := by
  simp [get?_erase, h]

/-! ### Leaving out entries -/

theorem erase_eq_self {key : String} {d : Dict α} (h : get? d key = none) : erase key d = d := by
  induction d with
  | nil => rfl
  | cons e d ih =>
    obtain ⟨k, v⟩ := e
    rw [get?_cons] at h
    split at h
    · cases h
    · rename_i hne
      have hd := ih h
      unfold erase at hd ⊢
      simp [hne, hd]

/-- Removing a key that was just set leaves what removing it without that leaves. -/
theorem erase_insert (key : String) (value : α) (d : Dict α) :
    erase key (insert key value d) = erase key d := by
  induction d with
  | nil => simp [insert, erase]
  | cons e d ih =>
    obtain ⟨k, v⟩ := e
    unfold insert
    split
    · simp [erase]
    · split
      · rename_i heq
        subst heq
        simp [erase]
      · rename_i hne
        unfold erase at ih ⊢
        simp [hne, ih]

theorem erase_comm (key k : String) (d : Dict α) :
    erase key (erase k d) = erase k (erase key d) := by
  simp only [erase, List.filter_filter, Bool.and_comm]

theorem get?_filter (p : String → Bool) (d : Dict α) (key : String) :
    get? (List.filter (fun e => p e.1) d) key = if p key then get? d key else none := by
  induction d with
  | nil => simp
  | cons e d ih =>
    obtain ⟨k, v⟩ := e
    rw [get?_cons, List.filter_cons]
    by_cases hkey : k = key
    · subst hkey
      by_cases hp : p k
      · simp [hp, get?_cons]
      · simp [hp, ih]
    · rw [if_neg hkey, ← ih]
      split
      · rw [get?_cons, if_neg hkey]
      · rfl

/-! ### Order -/

theorem Sorted.filter {d : Dict α} (hd : Sorted d) (p : String × α → Bool) :
    Sorted (List.filter p d) :=
  List.Pairwise.sublist (List.filter_sublist.map _) hd

theorem get?_eq_none_of_forall_lt {d : Dict α} {key : String}
    (h : ∀ k ∈ d.map (·.1), key < k) : get? d key = none := by
  induction d with
  | nil => rfl
  | cons e d ih =>
    obtain ⟨k, v⟩ := e
    simp only [List.map_cons, List.mem_cons, forall_eq_or_imp] at h
    have hne : k ≠ key := fun he => String.lt_irrefl _ (he ▸ h.1)
    rw [get?_cons, if_neg hne]
    exact ih h.2

theorem mem_of_get? {d : Dict α} {key : String} {v : α} (h : get? d key = some v) :
    (key, v) ∈ d := by
  induction d with
  | nil => cases h
  | cons e d ih =>
    obtain ⟨k, w⟩ := e
    rw [get?_cons] at h
    split at h
    · rename_i heq
      cases h
      simp [heq]
    · exact List.mem_cons_of_mem _ (ih h)

/-- In key order an entry is what a look-up of its key finds. -/
theorem Sorted.mem_iff {d : Dict α} (hd : Sorted d) {key : String} {v : α} :
    (key, v) ∈ d ↔ get? d key = some v := by
  refine ⟨fun h => ?_, mem_of_get?⟩
  induction d with
  | nil => cases h
  | cons e d ih =>
    obtain ⟨k, w⟩ := e
    simp only [Sorted, List.map_cons, List.pairwise_cons] at hd
    rcases List.mem_cons.1 h with heq | hmem
    · cases heq
      simp [get?_cons]
    · have hlt : k < key := hd.1 key (List.mem_map.2 ⟨_, hmem, rfl⟩)
      have hne : k ≠ key := fun he => String.lt_irrefl _ (he ▸ hlt)
      rw [get?_cons, if_neg hne]
      exact ih hd.2 hmem

theorem insert_of_forall_lt {d : Dict α} {key : String} (h : ∀ k ∈ d.map (·.1), k < key)
    (value : α) : insert key value d = d ++ [(key, value)] := by
  induction d with
  | nil => rfl
  | cons e d ih =>
    obtain ⟨k, v⟩ := e
    rw [List.map_cons, List.forall_mem_cons] at h
    have hnot : ¬key < k := fun hlt => String.lt_irrefl _ (String.lt_trans hlt h.1)
    have hne : k ≠ key := fun heq => String.lt_irrefl _ (heq ▸ h.1)
    unfold insert
    rw [if_neg hnot, if_neg hne, ih h.2, List.cons_append]

/-- Entries in key order, put in one after the other, stay as they are. -/
theorem merge_nil_of_sorted {d : Dict α} (hd : Sorted d) : merge [] d = d := by
  suffices hfold : ∀ front : Dict α, Sorted (front ++ d) →
      d.foldl (fun d e => insert e.1 e.2 d) front = front ++ d from hfold [] hd
  clear hd
  induction d with
  | nil => intro front _; simp
  | cons e d ih =>
    intro front hsorted
    have hlast : ∀ k ∈ front.map (·.1), k < e.1 := by
      intro k hk
      rw [Sorted, List.map_append, List.pairwise_append] at hsorted
      exact hsorted.2.2 k hk e.1 (List.mem_cons_self ..)
    rw [List.append_cons] at hsorted
    rw [List.foldl_cons, insert_of_forall_lt hlast, ih _ hsorted, List.append_cons front e d]

/-- Of two dictionaries put together the second one wins. -/
theorem get?_merge {d d' : Dict α} (hd' : Sorted d') (key : String) :
    get? (merge d d') key = (get? d' key).or (get? d key) := by
  unfold merge
  induction d' generalizing d with
  | nil => rfl
  | cons e d' ih =>
    obtain ⟨k, v⟩ := e
    simp only [Sorted, List.map_cons, List.pairwise_cons] at hd'
    rw [List.foldl_cons, ih hd'.2, get?_insert, get?_cons]
    split
    · rename_i hkey
      subst hkey
      rw [get?_eq_none_of_forall_lt hd'.1]
      rfl
    · rfl

/-- **Dictionaries in key order are their look-ups.** -/
theorem Sorted.ext {d d' : Dict α} (hd : Sorted d) (hd' : Sorted d')
    (h : ∀ key, get? d key = get? d' key) : d = d' := by
  induction d generalizing d' with
  | nil =>
    cases d' with
    | nil => rfl
    | cons e d' =>
      obtain ⟨k, v⟩ := e
      have := h k
      simp [get?_cons] at this
  | cons e d ih =>
    obtain ⟨k, v⟩ := e
    cases d' with
    | nil =>
      have := h k
      simp [get?_cons] at this
    | cons e' d' =>
      obtain ⟨k', v'⟩ := e'
      simp only [Sorted, List.map_cons, List.pairwise_cons] at hd hd'
      -- the smallest key of either dictionary is a key of the other one
      have hk : k = k' := by
        have hmem : (k, v) ∈ (k', v') :: d' := mem_of_get? (by rw [← h k]; simp [get?_cons])
        have hmem' : (k', v') ∈ (k, v) :: d := mem_of_get? (by rw [h k']; simp [get?_cons])
        rcases List.mem_cons.1 hmem with heq | hin
        · exact congrArg Prod.fst heq
        · rcases List.mem_cons.1 hmem' with heq' | hin'
          · exact (congrArg Prod.fst heq').symm
          · have h1 := hd'.1 k (List.mem_map.2 ⟨_, hin, rfl⟩)
            have h2 := hd.1 k' (List.mem_map.2 ⟨_, hin', rfl⟩)
            exact absurd (String.lt_trans h1 h2) (String.lt_irrefl _)
      subst hk
      have hv : v = v' := by
        have := h k
        simpa [get?_cons] using this
      subst hv
      congr 1
      refine ih hd.2 hd'.2 fun key => ?_
      by_cases hkey : k = key
      · subst hkey
        rw [get?_eq_none_of_forall_lt hd.1, get?_eq_none_of_forall_lt hd'.1]
      · have := h key
        simpa [get?_cons, hkey] using this

end Dict

end EdgeFields
