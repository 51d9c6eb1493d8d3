/-
  EdgeFields/Dict.lean
  ====================
  **Dictionaries in key order.**

  A dictionary lists its entries in ascending order of the keys, each key once
  (`Dict.Sorted`). Keys are ordered by code points, which is also the order of
  their UTF-8 bytes. Object members, the records of a store and the parameters of
  a request are dictionaries.

  Main statements: insertion and removal keep the order (`Dict.Sorted.insert`,
  `Dict.Sorted.erase`).
-/

namespace EdgeFields

/-- A dictionary with text keys. -/
abbrev Dict (α : Type) := List (String × α)

namespace Dict

variable {α : Type}

/-- The value under a key. -/
def get? : Dict α → String → Option α
  | [], _ => none
  | (k, v) :: d, key => if k = key then some v else get? d key

def contains (d : Dict α) (key : String) : Bool := (d.get? key).isSome

/-- Sets the value of a key, at the key's place in the order. -/
def insert (key : String) (value : α) : Dict α → Dict α
  | [] => [(key, value)]
  | (k, v) :: d =>
    if key < k then (key, value) :: (k, v) :: d
    else if k = key then (key, value) :: d
    else (k, v) :: insert key value d

/-- Sets a key when there is a value for it. -/
def insert? (key : String) (value : Option α) (d : Dict α) : Dict α :=
  match value with
  | some v => insert key v d
  | none => d

/-- Removes a key. -/
def erase (key : String) (d : Dict α) : Dict α := d.filter fun e => e.1 != key

/-- The entries in order, of a repeated key the last. -/
def ofList (es : List (String × α)) : Dict α := es.foldl (fun d e => insert e.1 e.2 d) []

/-- The entries of `b` put over those of `a`. -/
def merge (a b : Dict α) : Dict α := b.foldl (fun d e => insert e.1 e.2 d) a

/-! ### Order -/

/-- The keys ascend. -/
def Sorted (d : Dict α) : Prop := (d.map (·.1)).Pairwise (· < ·)

theorem mem_keys_insert {key k : String} {value : α} {d : Dict α} :
    k ∈ (insert key value d).map (·.1) ↔ k = key ∨ k ∈ d.map (·.1) := by
  induction d with
  | nil => simp [insert]
  | cons e d ih => grind [insert]

theorem Sorted.insert {key : String} {value : α} {d : Dict α} (h : Sorted d) :
    Sorted (Dict.insert key value d) := by
  induction d with
  | nil => simp [Dict.insert, Sorted]
  | cons e d ih =>
    obtain ⟨k, v⟩ := e
    simp only [Sorted, List.map_cons, List.pairwise_cons] at h ih ⊢
    unfold Dict.insert
    split
    · rename_i hlt
      simp only [List.map_cons, List.pairwise_cons, List.mem_cons]
      refine ⟨?_, h⟩
      rintro a (rfl | ha)
      · exact hlt
      · exact String.lt_trans hlt (h.1 a ha)
    · split
      · rename_i heq
        subst heq
        simpa using h
      · simp only [List.map_cons, List.pairwise_cons]
        refine ⟨fun a ha => ?_, ih h.2⟩
        rcases mem_keys_insert.1 ha with rfl | ha
        · grind
        · exact h.1 a ha

theorem Sorted.erase {key : String} {d : Dict α} (h : Sorted d) : Sorted (d.erase key) := by
  unfold Sorted Dict.erase
  exact h.sublist (List.filter_sublist.map _)

end Dict

end EdgeFields
