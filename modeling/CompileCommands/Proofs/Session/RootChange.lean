-- A change of the root. It forgets the fingerprint of the database, so that
-- the next pass rebuilds. A pass that is under way at that time keeps the
-- fingerprint that it took, and writes it back when it succeeds, unless the
-- database was not read to its end: the change is then forgotten. That is the
-- only way in which it can be.
import CompileCommands.Proofs.Session.Run

namespace CompileCommands.Session

/-! ## The law -/

/-- A pass that was started later found the database unchanged. -/
def Report.IsLaterCached (generation : Nat) (r : Report) : Prop :=
  generation < r.generation ∧ ∃ f, r.outcome = .cached f

/-- A pass that was started later succeeded. -/
def Report.IsLaterSuccess (generation : Nat) (r : Report) : Prop :=
  generation < r.generation ∧ ∃ project, r.outcome = .success project

/-- No later pass finds the database unchanged until a later one succeeded. -/
def Rebuilds (generation : Nat) (reports : List Report) : Prop :=
  ∀ front r back, reports = front ++ r :: back → r.IsLaterCached generation →
    ∃ r' ∈ front, r'.IsLaterSuccess generation

theorem rebuilds_nil (generation : Nat) : Rebuilds generation [] := by
  intro front r back h
  simp at h

theorem rebuilds_append {generation : Nat} {first more : List Report}
    (hfirst : ∀ r ∈ first, ¬ r.IsLaterCached generation)
    (h : (∃ r ∈ first, r.IsLaterSuccess generation) ∨ Rebuilds generation more) :
    Rebuilds generation (first ++ more) := by
  intro front r back heq hcached
  rcases List.append_eq_append_iff.mp heq with ⟨x, rfl, hmore⟩ | ⟨x, rfl, hback⟩
  · rcases h with ⟨r', hr', hsuccess⟩ | h
    · exact ⟨r', List.mem_append_left x hr', hsuccess⟩
    · obtain ⟨r', hr', hsuccess⟩ := h x r back hmore hcached
      exact ⟨r', List.mem_append_right first hr', hsuccess⟩
  · cases x with
    | nil =>
      rw [List.append_nil] at h
      rcases h with h | h
      · exact h
      · obtain ⟨r', hr', -⟩ := h [] r back hback.symm hcached
        cases hr'
    | cons r' x =>
      obtain ⟨rfl, -⟩ := List.cons.inj hback
      exact absurd hcached (hfirst r (by simp))

/-! ## Passes that rebuild -/

/-- Each pass reads the database, for it may not be skipped or cannot be
compared. -/
def AlwaysReads (fs : FileSystem) (s : Session) : Prop :=
  s.workspace.settings.skipUnchanged = false ∨ fingerprintOf s.workspace.settings fs = none

/-- The pass under way will succeed if it is finished. -/
def InFlight (s : Session) : Prop :=
  s.cancelled = false ∧ ∃ pass parse scan, s.pending = some pass ∧ pass.work = .read parse scan

/-- The pass under way will succeed if it is finished, and its database was read
to its end. -/
def ReadsWhole (s : Session) : Prop :=
  s.cancelled = false ∧ ∃ pass loaded scan, s.pending = some pass ∧
    pass.work = .read (.ok loaded) scan

/-- The change of the root after so many passes is still remembered. -/
structure Remembers (fs : FileSystem) (generation : Nat) (s : Session) : Prop where
  started : generation ≤ s.generation
  reads : ∀ pass f, s.pending = some pass → pass.work = .cached f → pass.generation ≤ generation
  forgot : AlwaysReads fs s ∨ s.previous = none ∧
    ∀ pass, s.pending = some pass → s.ReadsWhole → generation < pass.generation

theorem AlwaysReads.unchanged? {fs : FileSystem} {s : Session} (h : AlwaysReads fs s) :
    s.unchanged? fs = none := by
  cases hunchanged : s.unchanged? fs with
  | none => rfl
  | some f =>
    obtain ⟨hskip, hread, -⟩ := unchanged?_eq_some hunchanged
    rcases h with h | h
    · rw [h] at hskip
      cases hskip
    · rw [h] at hread
      cases hread

theorem Remembers.unchanged? {fs : FileSystem} {generation : Nat} {s : Session}
    (h : Remembers fs generation s) : s.unchanged? fs = none := by
  rcases h.forgot with hreads | ⟨hprevious, -⟩
  · exact hreads.unchanged?
  · exact unchanged?_of_previous_none hprevious fs

section Remembers

variable {fs : FileSystem} {generation : Nat} {s : Session}

theorem Remembers.start (h : Remembers fs generation s) (faults : PassFaults) :
    Remembers fs generation (s.start fs faults) := by
  have hpending := start_pending_of_changed s fs faults h.unchanged?
  have hstarted := h.started
  refine ⟨?_, ?_, ?_⟩
  · simp
    omega
  · intro pass f hpass hwork
    rw [hpending] at hpass
    cases hpass
    cases hwork
  · rcases h.forgot with hreads | ⟨hprevious, -⟩
    · left
      simpa [AlwaysReads] using hreads
    · right
      refine ⟨by simpa using hprevious, ?_⟩
      intro pass hpass _
      rw [hpending] at hpass
      cases hpass
      exact Nat.lt_succ_of_le hstarted

theorem Remembers.settle (h : Remembers fs generation s) : Remembers fs generation s.settle where
  started := h.started
  reads := by rintro pass f ⟨⟩
  forgot := by
    rcases h.forgot with hreads | ⟨hprevious, -⟩
    · exact .inl hreads
    · refine .inr ⟨hprevious, ?_⟩
      rintro pass ⟨⟩

theorem Remembers.cancel (h : Remembers fs generation s) : Remembers fs generation s.cancel where
  started := h.started
  reads := h.reads
  forgot := by
    rcases h.forgot with hreads | ⟨hprevious, -⟩
    · exact .inl hreads
    · refine .inr ⟨hprevious, ?_⟩
      rintro pass - ⟨hcancelled, -⟩
      cases hcancelled

theorem Remembers.setRoot (h : Remembers fs generation s) (root : Path) :
    Remembers fs generation (s.setRoot root) where
  started := h.started
  reads := h.reads
  forgot := by
    rcases h.forgot with hreads | ⟨-, hpending⟩
    · exact .inl hreads
    · exact .inr ⟨rfl, hpending⟩

/-- A pass that is finished does not report an unchanged database out of turn.
If it does not rebuild, the change of the root is still remembered. -/
theorem Remembers.finish (h : Remembers fs generation s) :
    (∀ r ∈ s.reports fs, ¬ r.IsLaterCached generation) ∧
      ((∃ r ∈ s.reports fs, r.IsLaterSuccess generation) ∨
        Remembers fs generation (s.finish fs).2) := by
  rcases finish_cases s fs with ⟨hreports, heq⟩ | ⟨pass, f, hpending, hwork, hreports, heq⟩ |
    ⟨pass, -, -, hreports, heq⟩ |
    ⟨pass, parse, scan, hpending, hwork, hrunning, hreports, heq⟩ <;> rw [hreports, heq]
  · exact ⟨fun r hr => (nomatch hr), .inr h⟩
  · refine ⟨List.forall_mem_singleton.mpr ?_, .inr h.settle⟩
    rintro ⟨hlater, -⟩
    exact absurd hlater (Nat.not_lt.mpr (h.reads pass f hpending hwork))
  · refine ⟨List.forall_mem_singleton.mpr ?_, .inr h.settle⟩
    rintro ⟨-, f, hcached⟩
    cases hcached
  · refine ⟨List.forall_mem_singleton.mpr ?_, ?_⟩
    · rintro ⟨-, f, hcached⟩
      cases hcached
    · by_cases hlater : generation < pass.generation
      · exact .inl ⟨_, List.mem_singleton.mpr rfl, hlater, _, rfl⟩
      · right
        refine ⟨h.started, by rintro pass f ⟨⟩, ?_⟩
        -- An earlier pass keeps its fingerprint only where no pass may be skipped.
        rcases h.forgot with hreads | ⟨-, hwhole⟩
        · exact .inl hreads
        · cases parse with
          | ok loaded =>
            exact absurd (hwhole pass hpending ⟨hrunning, pass, loaded, scan, hpending, hwork⟩)
              hlater
          | error fault => exact .inr ⟨rfl, by rintro pass ⟨⟩⟩

theorem Remembers.perform (h : Remembers fs generation s) (operation : Operation) :
    (∀ r ∈ (s.perform ⟨fs, operation⟩).2, ¬ r.IsLaterCached generation) ∧
      ((∃ r ∈ (s.perform ⟨fs, operation⟩).2, r.IsLaterSuccess generation) ∨
        Remembers fs generation (s.perform ⟨fs, operation⟩).1) := by
  have hnone : ∀ r ∈ ([] : List Report), ¬ r.IsLaterCached generation := fun r hr => nomatch hr
  cases operation with
  | start faults => exact ⟨hnone, .inr (h.start faults)⟩
  | finish => exact h.finish
  | reparse faults => exact (h.start faults).finish
  | cancel => exact ⟨hnone, .inr h.cancel⟩
  | setRoot root => exact ⟨hnone, .inr (h.setRoot root)⟩

theorem Remembers.rebuilds (h : Remembers fs generation s) (operations : List Operation) :
    Rebuilds generation (s.run (callsOn fs operations)).2 := by
  induction operations generalizing s with
  | nil => exact rebuilds_nil generation
  | cons operation operations ih =>
    obtain ⟨hcached, hnext⟩ := h.perform operation
    have hrun : (s.run (callsOn fs (operation :: operations))).2 =
        (s.perform ⟨fs, operation⟩).2 ++
          ((s.perform ⟨fs, operation⟩).1.run (callsOn fs operations)).2 := rfl
    rw [hrun]
    exact rebuilds_append hcached (hnext.imp_right ih)

end Remembers

/-! ## The change that is forgotten -/

/-- The session holds a pass whose fingerprint would be written back, and
which later passes would be compared with. -/
def WritesBack (fs : FileSystem) (s : Session) : Prop :=
  s.ReadsWhole ∧ ¬ AlwaysReads fs s

/-- The pass under way has the fingerprint of the database. -/
def PendingIsCurrent (fs : FileSystem) (s : Session) : Prop :=
  ∀ pass, s.pending = some pass → pass.fingerprint = fingerprintOf s.workspace.settings fs

theorem start_pendingIsCurrent (fs : FileSystem) (s : Session) (faults : PassFaults) :
    PendingIsCurrent fs (s.start fs faults) := by
  intro pass hpass
  simpa using (numbered_of_start hpass).2

theorem finish_pendingIsCurrent (fs : FileSystem) (s : Session) :
    PendingIsCurrent fs (s.finish fs).2 := by
  intro pass hpass
  simp at hpass

theorem run_pendingIsCurrent {fs : FileSystem} {s : Session} (h : PendingIsCurrent fs s)
    (operations : List Operation) : PendingIsCurrent fs (s.run (callsOn fs operations)).1 := by
  refine run_keeps h fun s call hcall h => ?_
  obtain ⟨operation, -, rfl⟩ := List.mem_map.mp hcall
  exact perform_keeps h (fun s faults _ => start_pendingIsCurrent fs s faults)
    (fun s _ => finish_pendingIsCurrent fs s) (fun _ h => h) (fun _ _ h => h)

/-- The pass under way is finished, and the next one is compared with it. -/
theorem not_rebuilds_of_writesBack {fs : FileSystem} {s : Session} (h : WritesBack fs s)
    (hlast : s.PendingIsLast) (hcurrent : PendingIsCurrent fs s) (root : Path) :
    ¬ Rebuilds s.generation
      ((s.setRoot root).run (callsOn fs [.finish, .start, .finish])).2 := by
  obtain ⟨⟨hrunning, pass, loaded, scan, hpending, hwork⟩, hskips⟩ := h
  unfold AlwaysReads at hskips
  rw [not_or, Bool.not_eq_false] at hskips
  obtain ⟨hskip, hread⟩ := hskips
  obtain ⟨f, hf⟩ := Option.ne_none_iff_exists'.mp hread
  -- The pass of before writes back its fingerprint.
  have hpending' : (s.setRoot root).pending = some pass := hpending
  have hfinish := finish_of_read hpending' hwork hrunning fs
  generalize (s.setRoot root).projectOf fs pass (.ok loaded) scan = project at hfinish
  have hfirst := reports_of_some hpending' fs
  rw [hfinish] at hfirst
  -- The next pass finds just that fingerprint.
  have hkept : pass.kept (.ok loaded) = some f := (hcurrent pass hpending).trans hf
  have hstart := start_pending_of_success hpending' hwork hrunning hkept hskip hf .none
  have hsecond := reports_of_some hstart fs
  rw [finish_of_cached hstart rfl fs, hfinish] at hsecond
  have hrun : ((s.setRoot root).run (callsOn fs [.finish, .start, .finish])).2 =
      (s.setRoot root).reports fs ++
        ([] ++ ((((s.setRoot root).finish fs).2.start fs).reports fs ++ [])) := rfl
  rw [hrun, hfinish, hfirst, hsecond]
  intro hrebuilds
  obtain ⟨r, hr, hlater, -⟩ := hrebuilds [⟨pass.generation, .success project⟩]
    ⟨s.generation + 1, .cached f⟩ [] rfl ⟨Nat.lt_succ_self s.generation, f, rfl⟩
  rw [List.mem_singleton.mp hr, hlast pass hpending] at hlater
  exact Nat.lt_irrefl _ hlater

/-! ## When a change of the root is remembered -/

/-- After any run, whichever tasks broke off in it, a change of the root makes
later passes rebuild if no pass is under way that writes its fingerprint back, and
only then. -/
theorem setRoot_rebuilds_iff (workspace : Workspace) (fs : FileSystem)
    (before : List Operation) (root : Path) :
    let s := ((Session.new workspace).run (callsOn fs before)).1
    (∀ after, Rebuilds s.generation ((s.setRoot root).run (callsOn fs after)).2) ↔
      ¬ WritesBack fs s := by
  intro s
  have hlast : s.PendingIsLast := run_pendingIsLast (pendingIsLast_of_none rfl) _
  have hcurrent : PendingIsCurrent fs s :=
    run_pendingIsCurrent (by rintro pass ⟨⟩) before
  constructor
  · intro hrebuilds hback
    exact not_rebuilds_of_writesBack hback hlast hcurrent root (hrebuilds _)
  · intro hback after
    have hremembers : Remembers fs s.generation (s.setRoot root) := by
      refine ⟨Nat.le_refl _, fun pass f hpass _ => Nat.le_of_eq (hlast pass hpass), ?_⟩
      by_cases hreads : AlwaysReads fs s
      · exact .inl hreads
      · exact .inr ⟨rfl, fun pass _ hwhole => absurd ⟨hwhole, hreads⟩ hback⟩
    exact hremembers.rebuilds after

/-- A database without records, at the top of the file system. -/
def emptyDatabase : FileSystem := ⟨.directory [("db", .file [0x5B, 0x5D])], none⟩

theorem fingerprintOf_emptyDatabase :
    fingerprintOf (.ofDatabase ⟨"/db"⟩) emptyDatabase = some (Fingerprint.of [0x5B, 0x5D]) := by
  have hread : emptyDatabase.read ⟨"/db"⟩ = .ok [0x5B, 0x5D] := by rfl
  exact congrArg (·.toOption.map Fingerprint.of) hread

/-- The root changes while the first pass over the database is under way. -/
theorem setRoot_during_pass_not_rebuilds :
    let s := ((Session.new ⟨.ofDatabase ⟨"/db"⟩, .empty, .unix⟩).run
      (callsOn emptyDatabase [.start])).1
    ¬ Rebuilds s.generation
      ((s.setRoot ⟨"/other"⟩).run (callsOn emptyDatabase [.finish, .start, .finish])).2 := by
  have hpending := start_pending_of_changed (new ⟨.ofDatabase ⟨"/db"⟩, .empty, .unix⟩)
    emptyDatabase .none (unchanged?_of_previous_none rfl emptyDatabase)
  refine not_rebuilds_of_writesBack
    ⟨⟨start_cancelled _ _ _, _, _, _, hpending, rfl⟩, ?_⟩
    (start_pendingIsLast _ _ _) (start_pendingIsCurrent _ _ _) ⟨"/other"⟩
  simp only [AlwaysReads, start_workspace]
  rintro (hskip | hnone)
  · cases hskip
  · cases fingerprintOf_emptyDatabase.symm.trans hnone

end CompileCommands.Session
