-- Runs of a session. A run is any sequence of calls, each of which sees the
-- file system as it is at that time. A call that starts a pass settles which of
-- its tasks break off. Each pass that ends is reported with its number, so a pass
-- is told from those that were started before it.
import CompileCommands.Session

namespace CompileCommands.Session

/-! ## Calls -/

/-- What a session can be asked to do. -/
inductive Operation
  | start (faults : PassFaults := .none)
  | finish
  | reparse (faults : PassFaults := .none)
  | cancel
  | setRoot (root : Path)

/-- An operation, and the file system that it sees. -/
structure Call where
  fs : FileSystem
  operation : Operation

/-- How a pass ended. -/
structure Report where
  generation : Nat
  outcome : PassOutcome

/-- The report of the pass under way, if it is finished now. -/
def reports (s : Session) (fs : FileSystem) : List Report :=
  match s.pending with
  | none => []
  | some pass => [⟨pass.generation, (s.finish fs).1⟩]

/-- The session after a call, and what was reported. -/
def perform (s : Session) (call : Call) : Session × List Report :=
  match call.operation with
  | .start faults => (s.start call.fs faults, [])
  | .finish => ((s.finish call.fs).2, s.reports call.fs)
  | .reparse faults =>
    let s := s.start call.fs faults
    ((s.finish call.fs).2, s.reports call.fs)
  | .cancel => (s.cancel, [])
  | .setRoot root => (s.setRoot root, [])

/-- The session after some calls, and all that was reported. -/
def run (s : Session) : List Call → Session × List Report
  | [] => (s, [])
  | call :: calls =>
    let (s, first) := s.perform call
    let (s, more) := s.run calls
    (s, first ++ more)

/-- The calls of a run in which the file system does not change. -/
def callsOn (fs : FileSystem) (operations : List Operation) : List Call :=
  operations.map (Call.mk fs)

/-- What each operation keeps is kept by a call. -/
theorem perform_keeps {P : Session → Prop} {s : Session} {call : Call} (h : P s)
    (hstart : ∀ s faults, P s → P (s.start call.fs faults))
    (hfinish : ∀ s, P s → P (s.finish call.fs).2)
    (hcancel : ∀ s, P s → P s.cancel) (hroot : ∀ s root, P s → P (s.setRoot root)) :
    P (s.perform call).1 := by
  unfold perform
  cases call.operation with
  | start faults => exact hstart s faults h
  | finish => exact hfinish s h
  | reparse faults => exact hfinish _ (hstart s faults h)
  | cancel => exact hcancel s h
  | setRoot root => exact hroot s root h

/-- What each call keeps is kept by a run. -/
theorem run_keeps {P : Session → Prop} {s : Session} {calls : List Call} (h : P s)
    (hcall : ∀ s, ∀ call ∈ calls, P s → P (s.perform call).1) : P (s.run calls).1 := by
  induction calls generalizing s with
  | nil => exact h
  | cons call calls ih =>
    have hfirst := hcall s call List.mem_cons_self h
    exact ih hfirst fun s c hc => hcall s c (List.mem_cons_of_mem call hc)

/-! ## What the operations do -/

section Start

variable (s : Session) (fs : FileSystem) (faults : PassFaults)

@[simp]
theorem start_generation : (s.start fs faults).generation = s.generation + 1 := by
  unfold start
  simp only
  split <;> rfl

@[simp]
theorem start_workspace : (s.start fs faults).workspace = s.workspace := by
  unfold start
  simp only
  split <;> rfl

@[simp]
theorem start_previous : (s.start fs faults).previous = s.previous := by
  unfold start
  simp only
  split <;> rfl

@[simp]
theorem start_cancelled : (s.start fs faults).cancelled = false := by
  unfold start
  simp only
  split <;> rfl

@[simp]
theorem start_published : (s.start fs faults).published = s.published := by
  unfold start
  simp only
  split <;> rfl

/-- A database that did not change makes a pass that is done at once. -/
theorem start_pending_of_unchanged {f : Fingerprint} (h : s.unchanged? fs = some f) :
    (s.start fs faults).pending = some ⟨s.generation + 1, some f, .cached f⟩ := by
  unfold start
  simp only [h]

/-- The pass that reads the database and scans the root. -/
def readingPass : Pass where
  generation := s.generation + 1
  fingerprint := fingerprintOf s.workspace.settings fs
  work := .read (s.readDatabase fs faults) (s.scanRoot fs faults)

/-- Any other database is read. -/
theorem start_pending_of_changed (h : s.unchanged? fs = none) :
    (s.start fs faults).pending = some (s.readingPass fs faults) := by
  unfold start
  simp only [h]
  rfl

end Start

theorem unchanged?_eq_some {s : Session} {fs : FileSystem} {f : Fingerprint}
    (h : s.unchanged? fs = some f) : s.workspace.settings.skipUnchanged = true ∧
      fingerprintOf s.workspace.settings fs = some f ∧ s.previous = some f := by
  unfold unchanged? at h
  split at h
  · obtain ⟨hread, hsame⟩ := Option.filter_eq_some_iff.mp h
    exact ⟨‹_›, hread, (of_decide_eq_true hsame).symm⟩
  · cases h

/-- A pass that was just started has the next number, and the fingerprint of the
database. -/
theorem numbered_of_start {s : Session} {fs : FileSystem} {faults : PassFaults} {pass : Pass}
    (h : (s.start fs faults).pending = some pass) :
    pass.generation = s.generation + 1 ∧
      pass.fingerprint = fingerprintOf s.workspace.settings fs := by
  cases hunchanged : s.unchanged? fs with
  | some f =>
    rw [start_pending_of_unchanged s fs faults hunchanged] at h
    cases h
    exact ⟨rfl, (unchanged?_eq_some hunchanged).2.1.symm⟩
  | none =>
    rw [start_pending_of_changed s fs faults hunchanged] at h
    cases h
    exact ⟨rfl, rfl⟩

theorem unchanged?_of_previous_none {s : Session} (h : s.previous = none) (fs : FileSystem) :
    s.unchanged? fs = none := by
  cases hunchanged : s.unchanged? fs with
  | none => rfl
  | some f =>
    have hsome := (unchanged?_eq_some hunchanged).2.2
    rw [h] at hsome
    cases hsome

theorem unchanged?_of_eq {s : Session} {fs : FileSystem} {f : Fingerprint}
    (hskip : s.workspace.settings.skipUnchanged = true)
    (hread : fingerprintOf s.workspace.settings fs = some f) (hprevious : s.previous = some f) :
    s.unchanged? fs = some f := by
  unfold unchanged?
  rw [if_pos hskip, hread, hprevious]
  simp

section Finish

variable {s : Session} {pass : Pass}

theorem finish_of_none (h : s.pending = none) (fs : FileSystem) :
    s.finish fs = (.cancelled, s) ∧ s.reports fs = [] := by
  unfold finish reports
  simp only [h, and_self]

theorem reports_of_some (h : s.pending = some pass) (fs : FileSystem) :
    s.reports fs = [⟨pass.generation, (s.finish fs).1⟩] := by
  unfold reports
  simp only [h]

theorem finish_of_cached (h : s.pending = some pass) {f : Fingerprint}
    (hwork : pass.work = .cached f) (fs : FileSystem) : s.finish fs = (.cached f, s.settle) := by
  unfold finish
  simp only [h, hwork]

variable {parse : PassParse} {scan : Option PassScan}

theorem finish_of_read (h : s.pending = some pass) (hwork : pass.work = .read parse scan)
    (hcancelled : s.cancelled = false) (fs : FileSystem) :
    let project := s.projectOf fs pass parse scan
    s.finish fs = (.success project, s.publish project (pass.kept parse) scan) := by
  unfold finish
  simp only [h, hwork, hcancelled, Bool.false_eq_true, if_false]

/-- After a success that keeps a fingerprint, the same database is found
unchanged. -/
theorem start_pending_of_success (h : s.pending = some pass) (hwork : pass.work = .read parse scan)
    (hcancelled : s.cancelled = false) {fs : FileSystem} {f : Fingerprint}
    (hkept : pass.kept parse = some f) (hskip : s.workspace.settings.skipUnchanged = true)
    (hread : fingerprintOf s.workspace.settings fs = some f) (faults : PassFaults) :
    ((s.finish fs).2.start fs faults).pending = some ⟨s.generation + 1, some f, .cached f⟩ := by
  rw [finish_of_read h hwork hcancelled fs]
  exact start_pending_of_unchanged _ fs faults (unchanged?_of_eq hskip hread hkept)

end Finish

/-- All ways in which a pass is finished. -/
inductive Finishes (s : Session) (fs : FileSystem) : PassOutcome → Session → Prop
  | nothing : s.pending = none → Finishes s fs .cancelled s
  | cancelled {pass : Pass} : s.pending = some pass → s.cancelled = true →
      Finishes s fs .cancelled s.settle
  | cached {pass : Pass} {f : Fingerprint} : s.pending = some pass → pass.work = .cached f →
      Finishes s fs (.cached f) s.settle
  | success {pass : Pass} {parse : PassParse} {scan : Option PassScan} {project : Project} :
      s.pending = some pass → pass.work = .read parse scan → s.cancelled = false →
      project = s.projectOf fs pass parse scan →
      Finishes s fs (.success project) (s.publish project (pass.kept parse) scan)

theorem finish_finishes (s : Session) (fs : FileSystem) :
    s.Finishes fs (s.finish fs).1 (s.finish fs).2 := by
  unfold finish
  cases hpending : s.pending with
  | none => exact .nothing hpending
  | some pass =>
    cases hwork : pass.work with
    | cached f =>
      simp only [hwork]
      exact .cached hpending hwork
    | read parse scan =>
      simp only [hwork]
      by_cases hcancelled : s.cancelled = true
      · simp only [hcancelled, if_true]
        exact .cancelled hpending hcancelled
      · rw [Bool.not_eq_true] at hcancelled
        simp only [hcancelled, Bool.false_eq_true, if_false]
        exact .success hpending hwork hcancelled rfl

theorem Finishes.workspace {s s' : Session} {fs : FileSystem} {outcome : PassOutcome}
    (h : s.Finishes fs outcome s') : s'.workspace = s.workspace := by
  cases h <;> rfl

theorem Finishes.pending {s s' : Session} {fs : FileSystem} {outcome : PassOutcome}
    (h : s.Finishes fs outcome s') : s'.pending = none := by
  cases h with
  | nothing hpending => exact hpending
  | cancelled | cached | success => rfl

@[simp]
theorem finish_workspace (s : Session) (fs : FileSystem) :
    (s.finish fs).2.workspace = s.workspace := (finish_finishes s fs).workspace

@[simp]
theorem finish_pending (s : Session) (fs : FileSystem) : (s.finish fs).2.pending = none :=
  (finish_finishes s fs).pending

/-- How the pass under way ends, if there is one. -/
theorem finish_cases (s : Session) (fs : FileSystem) :
    (s.reports fs = [] ∧ (s.finish fs).2 = s) ∨
    (∃ pass f, s.pending = some pass ∧ pass.work = .cached f ∧
      s.reports fs = [⟨pass.generation, .cached f⟩] ∧ (s.finish fs).2 = s.settle) ∨
    (∃ pass, s.pending = some pass ∧ s.cancelled = true ∧
      s.reports fs = [⟨pass.generation, .cancelled⟩] ∧ (s.finish fs).2 = s.settle) ∨
    (∃ pass parse scan, s.pending = some pass ∧ pass.work = .read parse scan ∧
      s.cancelled = false ∧
      let project := s.projectOf fs pass parse scan
      s.reports fs = [⟨pass.generation, .success project⟩] ∧
        (s.finish fs).2 = s.publish project (pass.kept parse) scan) := by
  have hfinish := finish_finishes s fs
  generalize houtcome : (s.finish fs).1 = outcome at hfinish
  generalize (s.finish fs).2 = s' at hfinish
  have hreports : ∀ pass, s.pending = some pass → s.reports fs = [⟨pass.generation, outcome⟩] := by
    intro pass hpending
    rw [reports_of_some hpending, houtcome]
  cases hfinish with
  | nothing hpending => exact .inl ⟨(finish_of_none hpending fs).2, rfl⟩
  | @cached pass f hpending hwork =>
    exact .inr (.inl ⟨pass, f, hpending, hwork, hreports pass hpending, rfl⟩)
  | @cancelled pass hpending hcancelled =>
    exact .inr (.inr (.inl ⟨pass, hpending, hcancelled, hreports pass hpending, rfl⟩))
  | @success pass parse scan project hpending hwork hcancelled heq =>
    subst heq
    exact .inr (.inr (.inr ⟨pass, parse, scan, hpending, hwork, hcancelled,
      hreports pass hpending, rfl⟩))

/-! ## What holds in every run -/

/-- The pass under way is the one that was started last. -/
def PendingIsLast (s : Session) : Prop :=
  ∀ pass, s.pending = some pass → pass.generation = s.generation

theorem pendingIsLast_of_none {s : Session} (h : s.pending = none) : s.PendingIsLast := by
  intro pass hpass
  rw [h] at hpass
  cases hpass

theorem start_pendingIsLast (s : Session) (fs : FileSystem) (faults : PassFaults) :
    (s.start fs faults).PendingIsLast := by
  intro pass hpass
  simpa using (numbered_of_start hpass).1

theorem run_pendingIsLast {s : Session} (h : s.PendingIsLast) (calls : List Call) :
    (s.run calls).1.PendingIsLast :=
  run_keeps h fun _ call _ h => perform_keeps h
    (fun s faults _ => start_pendingIsLast s call.fs faults)
    (fun s _ => pendingIsLast_of_none (finish_pending s call.fs)) (fun _ h => h) (fun _ _ h => h)

end CompileCommands.Session
