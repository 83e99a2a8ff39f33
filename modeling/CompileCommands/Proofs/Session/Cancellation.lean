-- Cancelling a pass. A pass that reads the database and is cancelled before it
-- is finished ends as cancelled. A pass that found the database unchanged is
-- not asked whether it was cancelled: it ends as it would have ended. Neither
-- leaves a trace in what is published or remembered.
import CompileCommands.Proofs.Session.Publication
import CompileCommands.Proofs.Session.RootChange

namespace CompileCommands.Session

/-- Cancelling wins: finished after it was cancelled, the pass under way ends
as cancelled, and what is published and remembered stays as it was. -/
structure CancelWins (fs : FileSystem) (s : Session) : Prop where
  outcome : (s.cancel.finish fs).1 = .cancelled
  published : (s.cancel.finish fs).2.published = s.published
  previous : (s.cancel.finish fs).2.previous = s.previous

section Cancelled

variable {s s' : Session} {fs : FileSystem} {outcome : PassOutcome}

theorem Finishes.no_trace (hf : s.cancel.Finishes fs outcome s') :
    s'.published = s.published ∧ s'.previous = s.previous := by
  cases hf with
  | nothing | cancelled | cached => exact ⟨rfl, rfl⟩
  | success _ _ hrunning => cases hrunning

theorem Finishes.cancelled_of_not_cached (hf : s.cancel.Finishes fs outcome s')
    (h : ∀ pass f, s.pending = some pass → pass.work ≠ .cached f) : outcome = .cancelled := by
  cases hf with
  | nothing | cancelled => rfl
  | cached hpending hwork => exact absurd hwork (h _ _ hpending)
  | success _ _ hrunning => cases hrunning

variable (s fs)

theorem cancel_finish_of_cached {pass : Pass} {f : Fingerprint} (h : s.pending = some pass)
    (hwork : pass.work = .cached f) : (s.cancel.finish fs).1 = .cached f := by
  have hpending : s.cancel.pending = some pass := h
  rw [finish_of_cached hpending hwork]

end Cancelled

/-- The session is scanning just when the pass under way did not find the
database unchanged. -/
theorem Disciplined.scanning_iff {s : Session} (h : s.Disciplined) :
    s.pending = none ∨ s.activity = .scanning ↔
      ∀ pass f, s.pending = some pass → pass.work ≠ .cached f := by
  rw [h.scanning]
  constructor
  · rintro (hnone | ⟨pass, parse, scan, hpending, hwork⟩) pass' f hpass hcached
    · rw [hnone] at hpass
      cases hpass
    · rw [hpending] at hpass
      cases hpass
      rw [hwork] at hcached
      cases hcached
  · intro hread
    cases hpending : s.pending with
    | none => exact .inl rfl
    | some pass =>
      cases hwork : pass.work with
      | cached f => exact absurd hwork (hread pass f hpending)
      | read parse scan => exact .inr ⟨pass, parse, scan, hpending, hwork⟩

/-- In each state that a run leads to, cancelling wins unless the pass under
way found the database unchanged. Such a pass answers with the fingerprint of
the project that is published; and in no case is anything published or
forgotten. -/
theorem cancelWins_iff (workspace : Workspace) (calls : List Call) (fs : FileSystem) :
    let s := ((new workspace).run calls).1
    (CancelWins fs s ↔ s.pending = none ∨ s.activity = .scanning) ∧
    (∀ pass f, s.pending = some pass → pass.work = .cached f →
      (s.cancel.finish fs).1 = .cached f ∧ s.Publishes f) ∧
    (s.cancel.finish fs).2.published = s.published ∧
    (s.cancel.finish fs).2.previous = s.previous := by
  intro s
  have hs : s.Disciplined := run_disciplined (new_disciplined workspace) calls
  have hfinish := finish_finishes s.cancel fs
  obtain ⟨hpublished, hprevious⟩ := hfinish.no_trace
  refine ⟨?_, ?_, hpublished, hprevious⟩
  · rw [hs.scanning_iff]
    constructor
    · intro hwins pass f hpending hwork
      have hcached := cancel_finish_of_cached s fs hpending hwork
      rw [hwins.outcome] at hcached
      cases hcached
    · intro hread
      exact ⟨hfinish.cancelled_of_not_cached hread, hpublished, hprevious⟩
  · intro pass f hpending hwork
    exact ⟨cancel_finish_of_cached s fs hpending hwork, hs.unchanged pass f hpending hwork⟩

/-- The second pass over a database that did not change is cancelled, and
finds it unchanged nevertheless. -/
theorem not_cancelWins_of_unchanged :
    let s := ((new ⟨.ofDatabase ⟨"/db"⟩, .empty, .unix⟩).run
      (callsOn emptyDatabase [.reparse, .start])).1
    s.pending ≠ none ∧ ¬ CancelWins emptyDatabase s := by
  intro s
  have hfirst := start_pending_of_changed (new ⟨.ofDatabase ⟨"/db"⟩, .empty, .unix⟩) emptyDatabase
    .none (unchanged?_of_previous_none rfl emptyDatabase)
  have hsecond := start_pending_of_success hfirst rfl (start_cancelled _ _ _)
    fingerprintOf_emptyDatabase rfl fingerprintOf_emptyDatabase .none
  have hpending : s.pending = some ⟨2, some (Fingerprint.of [0x5B, 0x5D]),
      .cached (Fingerprint.of [0x5B, 0x5D])⟩ := hsecond
  refine ⟨by rw [hpending]; nofun, ?_⟩
  intro hwins
  have hcached := cancel_finish_of_cached s emptyDatabase hpending rfl
  rw [hwins.outcome] at hcached
  cases hcached

end CompileCommands.Session
