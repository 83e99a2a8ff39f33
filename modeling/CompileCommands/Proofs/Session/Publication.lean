-- What a session publishes, and when. Only the pass that was started last is
-- ever under way, and only its success publishes a project. So the numbers of
-- the published projects grow, a pass that was given up or cancelled leaves
-- no trace, and the fingerprint that a session remembers is always that of
-- the project that everybody sees. A pass whose database was not read to its end
-- succeeds, too, but its fingerprint is not remembered.
import CompileCommands.Proofs.Session.Run

namespace CompileCommands.Session

/-! ## The discipline of a session -/

/-- The pass under way reads the database. -/
def Reads (s : Session) : Prop :=
  ∃ pass parse scan, s.pending = some pass ∧ pass.work = .read parse scan

/-- The project that is published has this fingerprint. -/
def Publishes (s : Session) (f : Fingerprint) : Prop :=
  ∃ project, s.published = some project ∧ project.fingerprint = some f

/-- What holds in every state between two calls. -/
structure Disciplined (s : Session) : Prop where
  scanning : s.activity = .scanning ↔ s.Reads
  idle : s.activity = .idle ↔ ¬ s.Reads
  last : s.PendingIsLast
  remembered : ∀ f, s.previous = some f → s.Publishes f
  unchanged : ∀ pass f, s.pending = some pass → pass.work = .cached f → s.Publishes f

theorem not_reads_of_none {s : Session} (h : s.pending = none) : ¬ s.Reads := by
  rintro ⟨pass, _, _, hpending, -⟩
  rw [h] at hpending
  cases hpending

theorem disciplined_of_none {s : Session} (hidle : s.activity = .idle) (h : s.pending = none)
    (hremembered : ∀ f, s.previous = some f → s.Publishes f) : s.Disciplined := by
  have hreads := not_reads_of_none h
  refine ⟨?_, ?_, pendingIsLast_of_none h, hremembered, ?_⟩
  · rw [hidle]
    exact ⟨nofun, fun hr => absurd hr hreads⟩
  · exact ⟨fun _ => hreads, fun _ => hidle⟩
  · intro pass f hpending
    rw [h] at hpending
    cases hpending

theorem new_disciplined (workspace : Workspace) : (new workspace).Disciplined :=
  disciplined_of_none rfl rfl nofun

/-! ## The calls of a session -/

section Start

variable (s : Session) (fs : FileSystem) (faults : PassFaults)

theorem start_activity_of_unchanged {f : Fingerprint} (h : s.unchanged? fs = some f) :
    (s.start fs faults).activity = .idle := by
  unfold start
  simp only [h]

theorem start_activity_of_changed (h : s.unchanged? fs = none) :
    (s.start fs faults).activity = .scanning := by
  unfold start
  simp only [h]

end Start

theorem start_publishes {s : Session} {f : Fingerprint} (h : s.Publishes f) (fs : FileSystem)
    (faults : PassFaults) : (s.start fs faults).Publishes f := by
  simpa [Publishes] using h

theorem start_disciplined {s : Session} (h : s.Disciplined) (fs : FileSystem)
    (faults : PassFaults) : (s.start fs faults).Disciplined := by
  have hlast := start_pendingIsLast s fs faults
  have hremembered : ∀ f, (s.start fs faults).previous = some f →
      (s.start fs faults).Publishes f := by
    intro f hf
    exact start_publishes (h.remembered f (by simpa using hf)) fs faults
  cases hunchanged : s.unchanged? fs with
  | some f =>
    have hpending := start_pending_of_unchanged s fs faults hunchanged
    have hidle := start_activity_of_unchanged s fs faults hunchanged
    have hreads : ¬ (s.start fs faults).Reads := by
      rintro ⟨pass, _, _, hpass, hwork⟩
      rw [hpending] at hpass
      cases hpass
      cases hwork
    refine ⟨?_, ?_, hlast, hremembered, ?_⟩
    · rw [hidle]
      exact ⟨nofun, fun hr => absurd hr hreads⟩
    · exact ⟨fun _ => hreads, fun _ => hidle⟩
    · intro pass f' hpass hwork
      rw [hpending] at hpass
      cases hpass
      cases hwork
      exact start_publishes (h.remembered f (unchanged?_eq_some hunchanged).2.2) fs faults
  | none =>
    have hpending := start_pending_of_changed s fs faults hunchanged
    have hscanning := start_activity_of_changed s fs faults hunchanged
    have hreads : (s.start fs faults).Reads := ⟨_, _, _, hpending, rfl⟩
    refine ⟨?_, ?_, hlast, hremembered, ?_⟩
    · exact ⟨fun _ => hreads, fun _ => hscanning⟩
    · rw [hscanning]
      exact ⟨nofun, fun hr => absurd hreads hr⟩
    · intro pass f hpass hwork
      rw [hpending] at hpass
      cases hpass
      cases hwork

/-- A fingerprint that is kept of a pass is that of its database. -/
theorem Pass.fingerprint_of_kept {pass : Pass} {parse : PassParse} {f : Fingerprint}
    (h : pass.kept parse = some f) : pass.fingerprint = some f := by
  cases parse with
  | ok => exact h
  | error => cases h

theorem Finishes.disciplined {s s' : Session} {fs : FileSystem} {outcome : PassOutcome}
    (hf : s.Finishes fs outcome s') (h : s.Disciplined) : s'.Disciplined := by
  cases hf with
  | nothing => exact h
  | cancelled | cached => exact disciplined_of_none rfl rfl h.remembered
  | @success pass parse scan project _ _ _ hproject =>
    refine disciplined_of_none rfl rfl fun f hf => ⟨project, rfl, ?_⟩
    rw [hproject]
    exact Pass.fingerprint_of_kept hf

theorem run_disciplined {s : Session} (h : s.Disciplined) (calls : List Call) :
    (s.run calls).1.Disciplined := by
  apply run_keeps h
  intro s call _ h
  apply perform_keeps h
  · exact fun s faults h => start_disciplined h call.fs faults
  · exact fun s h => (finish_finishes s call.fs).disciplined h
  · exact fun s h => ⟨h.scanning, h.idle, h.last, h.remembered, h.unchanged⟩
  · exact fun s root h => ⟨h.scanning, h.idle, h.last, nofun, h.unchanged⟩

/-! ## The projects of a run -/

/-- The project that a report publishes. -/
def Report.project? (r : Report) : Option Project :=
  match r.outcome with
  | .success project => some project
  | _ => none

/-- The projects that some reports publish. -/
def projects (reports : List Report) : List Project := reports.filterMap Report.project?

theorem finish_projects (s : Session) (fs : FileSystem) :
    (projects (s.reports fs) = [] ∧ (s.finish fs).2.published = s.published ∧
      (s.finish fs).2.previous = s.previous) ∨
    ∃ pass parse scan, s.pending = some pass ∧ s.cancelled = false ∧
      let project := s.projectOf fs pass parse scan
      projects (s.reports fs) = [project] ∧
        (s.finish fs).2 = s.publish project (pass.kept parse) scan := by
  have hfinish := finish_finishes s fs
  generalize houtcome : (s.finish fs).1 = outcome at hfinish
  generalize (s.finish fs).2 = s' at hfinish
  cases hfinish with
  | nothing hpending =>
    left
    rw [(finish_of_none hpending fs).2]
    exact ⟨rfl, rfl, rfl⟩
  | cancelled hpending | cached hpending =>
    left
    rw [reports_of_some hpending, houtcome]
    exact ⟨rfl, rfl, rfl⟩
  | @success pass parse scan project hpending _ hcancelled hproject =>
    right
    subst hproject
    refine ⟨pass, parse, scan, hpending, hcancelled, ?_, rfl⟩
    rw [reports_of_some hpending, houtcome]
    rfl

/-- The project tells that the database was not read to its end. -/
def TellsOfFault (project : Project) : Prop :=
  ∃ database fault, TaskFault.note "parse" database fault ∈ project.diagnostics

theorem kept_projectOf (s : Session) (fs : FileSystem) (pass : Pass) (parse : PassParse)
    (scan : Option PassScan) :
    let project := s.projectOf fs pass parse scan
    pass.kept parse = project.fingerprint ∨ pass.kept parse = none ∧ TellsOfFault project := by
  cases parse with
  | ok => exact .inl rfl
  | error fault =>
    refine .inr ⟨rfl, s.workspace.settings.database, fault, ?_⟩
    simp [projectOf, TaskFault.notes]

/-- The root that an operation sets. -/
def Operation.root? : Operation → Option Path
  | .setRoot root => some root
  | _ => none

/-- What a call may publish, and what it leaves behind. Without a success, the
session shows what it showed, and only a new root makes it forget the
fingerprint. With one, it remembers the fingerprint of the project, unless the
database was not read to its end, and the project tells of that. -/
inductive Publication (s s' : Session) (root? : Option Path) : List Project → Prop
  | none : s'.published = s.published →
      s'.previous = (if root?.isSome then Option.none else s.previous) →
      Publication s s' root? []
  | one {project : Project} : s'.published = some project →
      (s'.previous = project.fingerprint ∨ s'.previous = Option.none ∧ TellsOfFault project) →
      project.generation = s'.generation → s'.pending = Option.none →
      Publication s s' root? [project]

theorem finish_publication {s : Session} (h : s.PendingIsLast) (fs : FileSystem) :
    Publication s (s.finish fs).2 none (projects (s.reports fs)) := by
  rcases finish_projects s fs with ⟨hnone, hpublished, hprevious⟩ |
    ⟨pass, parse, scan, hpending, -, hone, heq⟩
  · rw [hnone]
    exact .none hpublished hprevious
  · rw [hone, heq]
    exact .one rfl (kept_projectOf s fs pass parse scan) (h pass hpending) rfl

theorem perform_publication {s : Session} (h : s.PendingIsLast) (call : Call) :
    Publication s (s.perform call).1 call.operation.root? (projects (s.perform call).2) := by
  obtain ⟨fs, operation⟩ := call
  cases operation with
  | start faults => exact .none (start_published s fs faults) (start_previous s fs faults)
  | finish => exact finish_publication h fs
  | reparse faults =>
    have hfinish := finish_publication (start_pendingIsLast s fs faults) fs
    unfold perform
    simp only
    generalize projects ((s.start fs faults).reports fs) = published at hfinish
    cases hfinish with
    | none hpublished hprevious =>
      exact .none (by simpa using hpublished) (by simpa [Operation.root?] using hprevious)
    | one hpublished hprevious hgeneration hpending =>
      exact .one hpublished hprevious hgeneration hpending
  | cancel => exact .none rfl rfl
  | setRoot root => exact .none rfl rfl

theorem run_cons_projects (s : Session) (call : Call) (calls : List Call) :
    projects (s.run (call :: calls)).2 =
      projects (s.perform call).2 ++ projects ((s.perform call).1.run calls).2 :=
  List.filterMap_append

theorem perform_pendingIsLast {s : Session} (h : s.PendingIsLast) (call : Call) :
    (s.perform call).1.PendingIsLast := run_pendingIsLast h [call]

/-- The project that is seen after a run is the last one that the run published. -/
theorem run_published {s : Session} (h : s.PendingIsLast) (calls : List Call) :
    (s.run calls).1.published = (projects (s.run calls).2).getLast?.or s.published := by
  induction calls generalizing s with
  | nil => rfl
  | cons call calls ih =>
    have hend : (s.run (call :: calls)).1 = ((s.perform call).1.run calls).1 := rfl
    rw [run_cons_projects, hend, ih (perform_pendingIsLast h call), List.getLast?_append,
      Option.or_assoc]
    congr 1
    have hcall := perform_publication h call
    generalize projects (s.perform call).2 = published at hcall
    cases hcall with
    | none hsame => exact hsame
    | one hone => exact hone

/-! ## Passes that leave no trace -/

/-- A pass that may still succeed was started after the first so many. -/
def Past (generation : Nat) (s : Session) : Prop :=
  generation ≤ s.generation ∧
    ∀ pass, s.pending = some pass → s.cancelled = false → generation < pass.generation

theorem past_of_none {s : Session} (h : s.pending = none) : Past s.generation s := by
  refine ⟨Nat.le_refl _, ?_⟩
  intro pass hpass
  rw [h] at hpass
  cases hpass

theorem past_cancel (s : Session) : Past s.generation s.cancel :=
  ⟨Nat.le_refl _, fun _ _ h => nomatch h⟩

section Past

variable {generation : Nat} {s : Session}

theorem past_start (h : generation ≤ s.generation) (fs : FileSystem) (faults : PassFaults) :
    Past generation (s.start fs faults) := by
  refine ⟨?_, ?_⟩
  · simp
    omega
  · intro pass hpass _
    rw [start_pendingIsLast s fs faults pass hpass]
    simp
    omega

theorem Finishes.past {s' : Session} {fs : FileSystem} {outcome : PassOutcome}
    (hf : s.Finishes fs outcome s') (h : Past generation s) : Past generation s' := by
  cases hf with
  | nothing => exact h
  | cancelled | cached | success => exact ⟨h.1, fun _ hpass => nomatch hpass⟩

theorem Past.finish (h : Past generation s) (fs : FileSystem) :
    (∀ p ∈ projects (s.reports fs), generation < p.generation) ∧
      Past generation (s.finish fs).2 := by
  refine ⟨?_, (finish_finishes s fs).past h⟩
  intro p hp
  rcases finish_projects s fs with ⟨hnone, -⟩ |
    ⟨pass, parse, scan, hpending, hcancelled, hone, -⟩
  · rw [hnone] at hp
    cases hp
  · rw [hone, List.mem_singleton] at hp
    rw [hp]
    exact h.2 pass hpending hcancelled

theorem Past.perform (h : Past generation s) (call : Call) :
    (∀ p ∈ projects (s.perform call).2, generation < p.generation) ∧
      Past generation (s.perform call).1 := by
  have hnone : ∀ p ∈ projects [], generation < p.generation := fun p hp => nomatch hp
  obtain ⟨fs, operation⟩ := call
  cases operation with
  | start faults => exact ⟨hnone, past_start h.1 fs faults⟩
  | finish => exact h.finish fs
  | reparse faults => exact (past_start h.1 fs faults).finish fs
  | cancel => exact ⟨hnone, h.1, fun _ _ hc => nomatch hc⟩
  | setRoot root => exact ⟨hnone, h⟩

/-- Only later passes succeed from here on. -/
theorem Past.run (h : Past generation s) (calls : List Call) :
    ∀ p ∈ projects (s.run calls).2, generation < p.generation := by
  induction calls generalizing s with
  | nil => exact fun p hp => nomatch hp
  | cons call calls ih =>
    obtain ⟨hfirst, hnext⟩ := h.perform call
    intro p hp
    rw [run_cons_projects, List.mem_append] at hp
    rcases hp with hp | hp
    · exact hfirst p hp
    · exact ih hnext p hp

end Past

theorem run_increasing {s : Session} (h : s.PendingIsLast) (calls : List Call) :
    (projects (s.run calls).2).Pairwise (fun p q => p.generation < q.generation) := by
  induction calls generalizing s with
  | nil => exact List.Pairwise.nil
  | cons call calls ih =>
    rw [run_cons_projects, List.pairwise_append]
    have hcall := perform_publication h call
    generalize projects (s.perform call).2 = published at hcall
    refine ⟨?_, ih (perform_pendingIsLast h call), ?_⟩
    · cases hcall with
      | none => exact List.Pairwise.nil
      | one => exact List.pairwise_singleton _ _
    · intro p hp q hq
      cases hcall with
      | none => cases hp
      | one _ _ hgeneration hpending =>
        rw [List.mem_singleton] at hp
        rw [hp, hgeneration]
        exact (past_of_none hpending).run calls q hq

/-! ## The discipline of a run -/

/-- What is told of a pass when it is finished, by how it ends. -/
def Answers (s : Session) : PassOutcome → Prop
  | .success project =>
    s.Reads ∧ s.cancelled = false ∧ project.generation = s.generation
  | .cached f => s.Publishes f
  | .cancelled => s.pending = none ∨ s.cancelled = true

theorem Finishes.answers {s s' : Session} {fs : FileSystem} {outcome : PassOutcome}
    (hf : s.Finishes fs outcome s') (h : s.Disciplined) : s.Answers outcome := by
  cases hf with
  | nothing hpending => exact .inl hpending
  | cancelled _ hcancelled => exact .inr hcancelled
  | @cached pass f hpending hwork => exact h.unchanged pass f hpending hwork
  | @success pass parse scan _ hpending hwork hcancelled hproject =>
    subst hproject
    exact ⟨⟨pass, parse, scan, hpending, hwork⟩, hcancelled, h.last pass hpending⟩

/-- In each state that a run leads to, whatever the file system was at each
call and whichever tasks broke off: the activity tells whether a pass is read,
only the pass that was started last is under way, and the fingerprint that is
remembered is that of the project that is seen. What is seen is what was
published last, with numbers that grow; and from a pass that was given up or
cancelled, nothing is ever published. -/
theorem publication_discipline (workspace : Workspace) (calls : List Call) :
    let s := ((new workspace).run calls).1
    let published := projects ((new workspace).run calls).2
    s.Disciplined ∧
    s.published = published.getLast? ∧
    published.Pairwise (fun p q => p.generation < q.generation) ∧
    (∀ call, Publication s (s.perform call).1 call.operation.root? (projects (s.perform call).2)) ∧
    (∀ fs, s.Answers (s.finish fs).1) ∧
    (∀ fs, s.pending = none → s.finish fs = (.cancelled, s)) ∧
    (∀ fs faults more, ∀ p ∈ projects ((s.start fs faults).run more).2,
      s.generation < p.generation) ∧
    (∀ more, ∀ p ∈ projects (s.cancel.run more).2, s.generation < p.generation) := by
  intro s published
  have hnew : (new workspace).PendingIsLast := pendingIsLast_of_none rfl
  have hs : s.Disciplined := run_disciplined (new_disciplined workspace) calls
  refine ⟨hs, ?_, run_increasing hnew calls, ?_, ?_, ?_, ?_, ?_⟩
  · have hpublished := run_published hnew calls
    rwa [show (new workspace).published = none from rfl, Option.or_none] at hpublished
  · exact fun call => perform_publication hs.last call
  · exact fun fs => (finish_finishes s fs).answers hs
  · exact fun fs hnone => (finish_of_none hnone fs).1
  · exact fun fs faults => (past_start (Nat.le_refl s.generation) fs faults).run
  · exact (past_cancel s).run

end CompileCommands.Session
