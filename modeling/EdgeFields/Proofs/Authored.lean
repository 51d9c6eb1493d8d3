/-
  EdgeFields/Proofs/Authored.lean
  ===============================
  **Records as the engine writes them.**

  A record that the engine writes holds the content of an edge whose properties are free of
  bookkeeping (`StoredRecord.Authored`). Whatever the engine is asked to write, and whether the
  write succeeds or not, a record is such a one afterwards unless it was there before
  (`BoundField.Call.authored_of_run`). So it is after any number of calls, through whatever
  fields (`BoundField.Run.authored`).
-/
import EdgeFields.Proofs.Steps

namespace EdgeFields

/-- The record of an edge without bookkeeping among its properties. -/
def StoredRecord.Authored (r : StoredRecord) : Prop :=
  ∃ e : Edge, r.fields = e.content ∧ Record.Plain e.properties

namespace BoundField

variable {b : BoundField} {s : MemoryStore} {path : String} {stored : StoredRecord}

theorem Leaves.authored (h : b.Leaves s stored) : stored.Authored := by
  obtain ⟨owner, es, r, o, _, _, hwrite, hleaves⟩ := h
  cases hwrite with
  | create hid htarget =>
    cases hleaves
    exact ⟨_, rfl, Reference.plain_edgeProperties r⟩
  | update hid he heid hinvolves htarget =>
    cases hleaves
    exact ⟨_, rfl, Reference.plain_edgeProperties r⟩

/-- **Every record that a call leaves is as the engine writes them**, if it was not there
    before. -/
theorem Call.authored_of_run (call : Call)
    (h : Dict.get? (call.run b s).2.records path = some stored) :
    Dict.get? s.records path = some stored ∨ stored.Authored :=
  (call.leaves_of_run h).imp_right Leaves.authored

/-- **Every record that a run of calls leaves is as the engine writes them**, if it was not there
    at the start. -/
theorem Run.authored {Allowed : BoundField → MemoryStore → Call → Prop} {t : MemoryStore}
    (hrun : Run Allowed s t) (h : Dict.get? t.records path = some stored) :
    Dict.get? s.records path = some stored ∨ stored.Authored := by
  revert path stored
  refine hrun.invariant (P := fun t => ∀ {path stored}, Dict.get? t.records path = some stored →
    Dict.get? s.records path = some stored ∨ stored.Authored) .inl ?_
  intro b t call _ ht path stored h
  rcases call.authored_of_run h with hbefore | hauthored
  · exact ht hbefore
  · exact .inr hauthored

end BoundField

end EdgeFields
