/-
  EdgeFields/Proofs/Engine.lean
  =============================
  **How computations of the engine run.**

  A computation that only reads (`EngineM.ReadOnly`) is known by what it answers at a
  state, and its answers compose as results do (`EngineM.ReadOnly.answer_bind`). All checks
  of the engine are of this kind, so that whether a write is refused is a question about
  results alone.
-/
import EdgeFields.Engine.BoundField
import EdgeFields.Store.Memory

namespace EdgeFields

/-! ### Results -/

namespace Result

variable {ε α β : Type}

theorem bind_eq_ok {x : Except ε α} {f : α → Except ε β} {b : β} :
    (x >>= f) = .ok b ↔ ∃ a, x = .ok a ∧ f a = .ok b := by
  cases x <;> simp [bind, Except.bind]

theorem bind_eq_error {x : Except ε α} {f : α → Except ε β} {e : ε} :
    (x >>= f) = .error e ↔ x = .error e ∨ ∃ a, x = .ok a ∧ f a = .error e := by
  cases x <;> simp [bind, Except.bind]

theorem bind_congr {x : Except ε α} {f g : α → Except ε β} (h : ∀ a, x = .ok a → f a = g a) :
    (x >>= f) = x >>= g := by
  cases x with
  | error e => rfl
  | ok a => exact h a rfl

@[simp] theorem ok_bind (a : α) (f : α → Except ε β) : (Except.ok a >>= f) = f a := rfl

@[simp] theorem mapError_ok {ε' : Type} (f : ε → ε') (a : α) :
    (Except.ok a : Except ε α).mapError f = .ok a := rfl

@[simp] theorem mapError_error {ε' : Type} (f : ε → ε') (e : ε) :
    (Except.error e : Except ε α).mapError f = .error (f e) := rfl

theorem mapError_eq_ok {ε' : Type} {f : ε → ε'} {x : Except ε α} {a : α} :
    x.mapError f = .ok a ↔ x = .ok a := by
  cases x <;> simp

theorem eq_ok_of_isOk {x : Except ε α} (h : x.isOk = true) : ∃ a, x = .ok a := by
  cases x with
  | error e => cases h
  | ok a => exact ⟨a, rfl⟩

theorem mapM_cons (f : α → Except ε β) (a : α) (l : List α) :
    (a :: l).mapM f = (do let b ← f a; let bs ← l.mapM f; pure (b :: bs)) := by
  simp

/-- Results of a list that are all there are the results of the list. -/
theorem mapM_eq_ok_map {f : α → Except ε β} {g : α → β} {l : List α}
    (h : ∀ a ∈ l, f a = .ok (g a)) : l.mapM f = .ok (l.map g) := by
  induction l with
  | nil => rfl
  | cons a l ih =>
    have ha := h a (List.mem_cons_self ..)
    have hl := ih fun a' ha' => h a' (List.mem_cons_of_mem _ ha')
    rw [mapM_cons, ha, hl]
    rfl

theorem exists_mapM_eq_ok {f : α → Except ε β} {l : List α} (h : ∀ a ∈ l, ∃ b, f a = .ok b) :
    ∃ l', l.mapM f = .ok l' := by
  induction l with
  | nil => exact ⟨[], rfl⟩
  | cons a l ih =>
    rw [List.forall_mem_cons] at h
    obtain ⟨b, hb⟩ := h.1
    obtain ⟨l', hl'⟩ := ih h.2
    rw [mapM_cons, hb, hl']
    exact ⟨b :: l', rfl⟩

/-- **The results of a list are a function of its elements.** -/
theorem map_of_mapM_eq_ok [Nonempty β] {f : α → Except ε β} {l : List α} {l' : List β}
    (h : l.mapM f = .ok l') : ∃ g : α → β, l' = l.map g ∧ ∀ a ∈ l, f a = .ok (g a) := by
  classical
  let g : α → β := fun a =>
    if h : ∃ b, f a = .ok b then h.choose else Classical.choice inferInstance
  have hg : ∀ a b, f a = .ok b → g a = b := by
    intro a b hab
    have hex : ∃ b, f a = .ok b := ⟨b, hab⟩
    have hg : g a = hex.choose := dif_pos hex
    have hchoose := hab.symm.trans hex.choose_spec
    rw [hg]
    exact (Except.ok.inj hchoose).symm
  refine ⟨g, ?_⟩
  induction l generalizing l' with
  | nil =>
    cases h
    exact ⟨rfl, fun a ha => nomatch ha⟩
  | cons a l ih =>
    rw [mapM_cons] at h
    obtain ⟨b, hb, h⟩ := bind_eq_ok.1 h
    obtain ⟨bs, hbs, h⟩ := bind_eq_ok.1 h
    cases h
    obtain ⟨rfl, hall⟩ := ih hbs
    rw [List.map_cons, hg a b hb]
    refine ⟨rfl, ?_⟩
    rintro a' (_ | ⟨_, ha'⟩)
    · rw [hb, hg a b hb]
    · exact hall a' ha'

/-- Elements that are told apart by their results can be dropped before or after. -/
theorem mapM_filter {f : α → Except ε β} {p : α → Bool} {q : β → Bool} {l : List α} {l' : List β}
    (h : l.mapM f = .ok l') (hpq : ∀ a ∈ l, ∀ b, f a = .ok b → p a = q b) :
    (l.filter p).mapM f = .ok (l'.filter q) := by
  induction l generalizing l' with
  | nil =>
    cases h
    rfl
  | cons a l ih =>
    rw [mapM_cons, bind_eq_ok] at h
    obtain ⟨b, hb, h⟩ := h
    obtain ⟨bs, hbs, h⟩ := bind_eq_ok.1 h
    cases h
    rw [List.forall_mem_cons] at hpq
    rw [List.filter_cons, List.filter_cons, hpq.1 b hb]
    split
    · rw [mapM_cons, hb, ih hbs hpq.2]
      rfl
    · exact ih hbs hpq.2

theorem forM_cons {m : Type → Type} [Monad m] (f : α → m Unit) (a : α) (l : List α) :
    (a :: l).forM f = (do f a; l.forM f) := rfl

theorem forM_eq_ok_iff {f : α → Except ε Unit} {l : List α} :
    l.forM f = .ok () ↔ ∀ a ∈ l, f a = .ok () := by
  induction l with
  | nil => simp [List.forM, pure, Except.pure]
  | cons a l ih =>
    rw [forM_cons, bind_eq_ok, List.forall_mem_cons]
    constructor
    · rintro ⟨_, ha, hl⟩
      exact ⟨ha, ih.1 hl⟩
    · rintro ⟨ha, hl⟩
      exact ⟨(), ha, ih.2 hl⟩

theorem exists_of_forM_eq_error {f : α → Except ε Unit} {l : List α} {e : ε}
    (h : l.forM f = .error e) : ∃ a ∈ l, f a = .error e := by
  induction l with
  | nil => cases h
  | cons a l ih =>
    rw [forM_cons, bind_eq_error] at h
    rcases h with h | ⟨_, _, h⟩
    · exact ⟨a, List.mem_cons_self .., h⟩
    · obtain ⟨a', ha', h⟩ := ih h
      exact ⟨a', List.mem_cons_of_mem _ ha', h⟩

end Result

namespace EngineM

variable {σ α β : Type}

/-! ### Steps of a computation -/

theorem bind_apply (m : EngineM σ α) (f : α → EngineM σ β) (s : σ) :
    (m >>= f) s =
      match m s with
      | (.ok a, s') => f a s'
      | (.error e, s') => (.error e, s') := by
  rcases h : m s with ⟨_ | a, s'⟩
  · simp [bind, ExceptT.bind, ExceptT.bindCont, StateT.bind, ExceptT.mk, h]
    rfl
  · simp [bind, ExceptT.bind, ExceptT.bindCont, StateT.bind, ExceptT.mk, h]

theorem bind_ok {m : EngineM σ α} {s s' : σ} {a : α} (h : m s = (.ok a, s'))
    (f : α → EngineM σ β) : (m >>= f) s = f a s' := by
  rw [bind_apply, h]

/-- A computation in two steps that succeeds has succeeded in both. -/
theorem of_bind_eq_ok {m : EngineM σ α} {f : α → EngineM σ β} {s s' : σ} {y : β}
    (h : (m >>= f) s = (.ok y, s')) : ∃ a t, m s = (.ok a, t) ∧ f a t = (.ok y, s') := by
  rw [bind_apply] at h
  rcases hm : m s with ⟨e | a, t⟩
  · rw [hm] at h
    cases h
  · rw [hm] at h
    exact ⟨a, t, rfl, h⟩

theorem map_apply (f : α → β) (m : EngineM σ α) (s : σ) :
    (f <$> m) s =
      match m s with
      | (.ok a, s') => (.ok (f a), s')
      | (.error e, s') => (.error e, s') := by
  rw [map_eq_pure_bind, bind_apply]
  rfl

theorem state_map (f : α → β) (m : EngineM σ α) (s : σ) : ((f <$> m) s).2 = (m s).2 := by
  rw [map_apply]
  rcases m s with ⟨e | a, t⟩ <;> rfl

theorem of_map_eq_error {f : α → β} {m : EngineM σ α} {s s' : σ} {e : Error}
    (h : (f <$> m) s = (.error e, s')) : m s = (.error e, s') := by
  rw [map_apply] at h
  rcases hm : m s with ⟨e' | a, t⟩
  · rw [hm] at h
    cases h
    rfl
  · rw [hm] at h
    cases h

theorem tryCatch_apply (m : EngineM σ α) (handle : Error → EngineM σ α) (s : σ) :
    (tryCatch m handle : EngineM σ α) s =
      match m s with
      | (.ok a, s') => (.ok a, s')
      | (.error e, s') => handle e s' := by
  rcases h : m s with ⟨e | a, s'⟩
  · simp [tryCatch, tryCatchThe, MonadExceptOf.tryCatch, ExceptT.tryCatch, ExceptT.mk, bind,
      StateT.bind, h]
  · simp [tryCatch, tryCatchThe, MonadExceptOf.tryCatch, ExceptT.tryCatch, ExceptT.mk, bind,
      StateT.bind, h]
    rfl

theorem ofResult_ok_bind (a : α) (f : α → EngineM σ β) :
    (ofResult (.ok a) : EngineM σ α) >>= f = f a := rfl

theorem ofResult_error_bind (e : Error) (f : α → EngineM σ β) :
    (ofResult (.error e) : EngineM σ α) >>= f = ofResult (.error e) := rfl

theorem ofResult_bind (x : Except Error α) (f : α → Except Error β) :
    (ofResult (x >>= f) : EngineM σ β) = ofResult x >>= fun a => ofResult (f a) := by
  cases x <;> rfl

theorem fromBatch_apply (m : ExceptT Batch.Error (StateM σ) α) (s : σ) :
    fromBatch m s = ((m s).1.mapError Error.ofBatch, (m s).2) := rfl

theorem fromStore_apply (m : StoreM σ α) (s : σ) :
    fromStore m s = ((m s).1.mapError Error.store, (m s).2) := rfl

/-! ### Computations that only read -/

/-- What a computation answers at a state. -/
def answer (m : EngineM σ α) (s : σ) : Except Error α := (m s).1

/-- A computation that leaves every state as it is. -/
def ReadOnly (m : EngineM σ α) : Prop := ∀ s, (m s).2 = s

@[simp] theorem answer_pure (a : α) (s : σ) : answer (pure a : EngineM σ α) s = .ok a := rfl

@[simp] theorem answer_throw (e : Error) (s : σ) :
    answer (throw e : EngineM σ α) s = .error e := rfl

@[simp] theorem answer_ofResult (x : Except Error α) (s : σ) :
    answer (ofResult x : EngineM σ α) s = x := rfl

theorem answer_map (f : α → β) (m : EngineM σ α) (s : σ) :
    answer (f <$> m) s = (m.answer s).map f := by
  unfold answer
  rw [map_apply]
  rcases m s with ⟨e | a, t⟩ <;> rfl

theorem readOnly_pure (a : α) : ReadOnly (pure a : EngineM σ α) := fun _ => rfl

theorem readOnly_throw (e : Error) : ReadOnly (throw e : EngineM σ α) := fun _ => rfl

theorem readOnly_ofResult (x : Except Error α) : ReadOnly (ofResult x : EngineM σ α) :=
  fun _ => rfl

namespace ReadOnly

variable {m : EngineM σ α}

theorem apply (hm : ReadOnly m) (s : σ) : m s = (m.answer s, s) := by
  rw [← Prod.eta (m s), hm s]
  rfl

theorem eq_ok_of_apply (hm : ReadOnly m) {s t : σ} {a : α} (h : m s = (.ok a, t)) :
    m.answer s = .ok a ∧ t = s := by
  rw [hm.apply s] at h
  exact ⟨congrArg Prod.fst h, (congrArg Prod.snd h).symm⟩

/-- A first step that only reads hands its answer to the next one at the same state. -/
theorem bind_apply (hm : ReadOnly m) (f : α → EngineM σ β) (s : σ) :
    (m >>= f) s =
      match m.answer s with
      | .ok a => f a s
      | .error e => (.error e, s) := by
  rw [EngineM.bind_apply, hm.apply s]
  cases m.answer s <;> rfl

theorem answer_bind (hm : ReadOnly m) (f : α → EngineM σ β) (s : σ) :
    (m >>= f).answer s = m.answer s >>= fun a => (f a).answer s := by
  unfold answer
  rw [hm.bind_apply, answer]
  cases (m s).1 <;> rfl

theorem bind (hm : ReadOnly m) {f : α → EngineM σ β} (hf : ∀ a, ReadOnly (f a)) :
    ReadOnly (m >>= f) := by
  intro s
  rw [hm.bind_apply]
  cases m.answer s with
  | ok a => exact hf a s
  | error e => rfl

theorem tryCatch (hm : ReadOnly m) {handle : Error → EngineM σ α}
    (hh : ∀ e, ReadOnly (handle e)) : ReadOnly (tryCatch m handle) := by
  intro s
  rw [tryCatch_apply, hm.apply s]
  cases m.answer s with
  | ok a => rfl
  | error e => exact hh e s

theorem forM {f : α → EngineM σ Unit} (hf : ∀ a, ReadOnly (f a)) (l : List α) :
    ReadOnly (l.forM f) := by
  induction l with
  | nil => exact readOnly_pure ()
  | cons a l ih =>
    rw [Result.forM_cons]
    exact (hf a).bind fun _ => ih

theorem answer_forM {f : α → EngineM σ Unit} (hf : ∀ a, ReadOnly (f a)) (l : List α) (s : σ) :
    EngineM.answer (l.forM f) s = l.forM fun a => (f a).answer s := by
  induction l with
  | nil => rfl
  | cons a l ih =>
    rw [Result.forM_cons, Result.forM_cons, (hf a).answer_bind, ih]

end ReadOnly

/-! ### Reading a memory store -/

theorem readOnly_reading (f : MemoryStore → Except StoreError α) :
    ReadOnly (fromStore (MemoryStore.reading f)) := by
  intro s
  rw [fromStore_apply]
  rfl

theorem answer_reading (f : MemoryStore → Except StoreError α) (s : MemoryStore) :
    answer (fromStore (MemoryStore.reading f)) s = (f s).mapError Error.store := by
  unfold answer
  rw [fromStore_apply]
  rfl

theorem readOnly_read (path : String) :
    ReadOnly (fromStore (Store.read path) : EngineM MemoryStore Record) :=
  readOnly_reading _

theorem readOnly_query (c : String) (r : Request) :
    ReadOnly (fromStore (Store.query c r) : EngineM MemoryStore QueryResults) :=
  readOnly_reading _

end EngineM

end EdgeFields
