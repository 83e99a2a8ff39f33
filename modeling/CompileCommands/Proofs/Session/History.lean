-- Passes and what came before them. From one pass to the next, a session
-- carries what scans learned of types, and all of it is what a scan would
-- learn again. So a pass that reads the database makes the project that a
-- first pass would make, whatever was started, cancelled or shown before. A task
-- that breaks off in it is not of the past: it shows in the project.
import CompileCommands.Proofs.Scan.Verdicts
import CompileCommands.Proofs.Session.Origin

namespace CompileCommands

/-! ## The project of a first pass -/

namespace Workspace

/-- The contents that are read if the task for them breaks off, or does not. -/
def contentsRead (w : Workspace) (fs : FileSystem) (broken : Bool) : Database.Contents :=
  if broken then .empty (Database.extrasPath w.settings.database w.settings.extrasSuffix)
  else (Database.load fs w.settings.database w.settings.extrasSuffix).1

/-- The files that are found if the task for them breaks off, or does not. -/
def filesFound (w : Workspace) (fs : FileSystem) (broken : Bool) : List ScannedFile :=
  if w.settings.scan.enabled && !broken then Scan.found fs w.settings.root w.scanFilter else []

/-- The tree and the build that are made where nothing was learned before. -/
def fresh (w : Workspace) (fs : FileSystem) (faults : PassFaults) : Folder × BuildDescription :=
  let contents := w.contentsRead fs faults.parse.isSome
  let scanned := w.filesFound fs faults.scan.isSome
  let assembled := w.assemble fs contents scanned
  (assembled.1, assembled.2.1)

/-- In a pass of this workspace, the same tasks break off. How far they came is
left open. -/
structure BreaksAlike (w : Workspace) (faults faults' : PassFaults) : Prop where
  parse : faults.parse.isSome = faults'.parse.isSome
  scan : w.settings.scan.enabled = true → faults.scan.isSome = faults'.scan.isSome

theorem BreaksAlike.fresh_eq {w : Workspace} {faults faults' : PassFaults}
    (h : w.BreaksAlike faults faults') (fs : FileSystem) :
    w.fresh fs faults = w.fresh fs faults' := by
  have hfiles : w.filesFound fs faults.scan.isSome = w.filesFound fs faults'.scan.isSome := by
    unfold filesFound
    by_cases henabled : w.settings.scan.enabled = true
    · rw [h.scan henabled]
    · simp [henabled]
  unfold fresh
  rw [h.parse, hfiles]

end Workspace

namespace Session

/-! ## What is known of types -/

/-- All that is known of types, also by the scan of the pass under way, is
what a scan would learn again. -/
structure HasSoundCaches (s : Session) : Prop where
  held : ∀ c, s.mimeCache = some c → c.IsSound
  taken : ∀ scan c, s.scan? = some scan → scan.cache? = some c → c.IsSound

theorem scan?_of_read {s : Session} {pass : Pass} {parse : PassParse} {scan : Option PassScan}
    (h : s.pending = some pass) (hwork : pass.work = .read parse scan) : s.scan? = scan := by
  obtain ⟨generation, fingerprint, work⟩ := pass
  unfold scan?
  rw [h]
  cases hwork
  rfl

theorem scan?_of_unchanged {s : Session} {fs : FileSystem} {f : Fingerprint}
    (h : s.unchanged? fs = some f) (faults : PassFaults) : (s.start fs faults).scan? = none := by
  unfold scan?
  rw [start_pending_of_unchanged s fs faults h]

theorem start_mimeCache {s : Session} {fs : FileSystem} {faults : PassFaults} {c : MimeCache}
    (h : (s.start fs faults).mimeCache = some c) : s.mimeCache = some c := by
  unfold start at h
  simp only at h
  split at h
  · exact h
  · split at h
    · cases h
    · exact h

namespace HasSoundCaches

variable {s : Session}

theorem getD (h : s.HasSoundCaches) : (s.mimeCache.getD .empty).IsSound := by
  cases hcache : s.mimeCache with
  | none => exact MimeCache.empty_isSound
  | some c => exact h.held c hcache

theorem scanRoot (h : s.HasSoundCaches) {fs : FileSystem} {faults : PassFaults}
    {scan : PassScan} {c : MimeCache} (hscan : s.scanRoot fs faults = some scan)
    (hc : scan.cache? = some c) : c.IsSound := by
  unfold Session.scanRoot at hscan
  simp only at hscan
  split at hscan
  · cases hscan
    -- A scan that breaks off gives nothing back.
    cases hfault : faults.scan with
    | none =>
      rw [hfault] at hc
      exact (Scan.run_eq fs _ _ h.getD).2 c hc
    | some fault =>
      rw [hfault] at hc
      cases hc
  · cases hscan

theorem start (h : s.HasSoundCaches) (fs : FileSystem) (faults : PassFaults) :
    (s.start fs faults).HasSoundCaches where
  held c hc := h.held c (start_mimeCache hc)
  taken scan c hscan hc := by
    cases hunchanged : s.unchanged? fs with
    | some f =>
      rw [scan?_of_unchanged hunchanged] at hscan
      cases hscan
    | none =>
      have hscan? : (s.start fs faults).scan? = s.scanRoot fs faults :=
        scan?_setRoots hunchanged faults []
      rw [hscan?] at hscan
      exact h.scanRoot hscan hc

theorem cacheAfter (h : s.HasSoundCaches) {scan : Option PassScan} {c : MimeCache}
    (hscan : s.scan? = scan) (hc : s.cacheAfter scan = some c) : c.IsSound := by
  match scan with
  | none => exact h.held c hc
  | some ⟨_, .error _⟩ => exact h.held c hc
  | some ⟨root, .ok outcome⟩ => exact h.taken ⟨root, .ok outcome⟩ c hscan hc

theorem of_finishes (h : s.HasSoundCaches) {s' : Session} {fs : FileSystem}
    {outcome : PassOutcome} (hf : s.Finishes fs outcome s') : s'.HasSoundCaches := by
  cases hf with
  | nothing => exact h
  | cancelled | cached => exact ⟨h.held, nofun⟩
  | success hpending hwork =>
    exact ⟨fun c hc => h.cacheAfter (scan?_of_read hpending hwork) hc, nofun⟩

end HasSoundCaches

theorem run_hasSoundCaches (workspace : Workspace) (calls : List Call) :
    ((new workspace).run calls).1.HasSoundCaches := by
  have hnew : (new workspace).HasSoundCaches := by
    refine ⟨?_, nofun⟩
    rintro c ⟨⟩
    exact MimeCache.empty_isSound
  apply run_keeps hnew
  intro s call _ h
  apply perform_keeps h
  · exact fun s faults h => h.start call.fs faults
  · exact fun s h => h.of_finishes (finish_finishes s call.fs)
  · exact fun s h => ⟨h.held, h.taken⟩
  · exact fun s root h => ⟨h.held, h.taken⟩

/-! ## Passes that read the database -/

theorem readDatabase_contents (s : Session) (fs : FileSystem) (faults : PassFaults) :
    (s.readDatabase fs faults).contents s.workspace.settings =
      s.workspace.contentsRead fs faults.parse.isSome := by
  unfold readDatabase
  cases faults.parse with
  | none => rfl
  | some fault => rfl

theorem HasSoundCaches.scanned {s : Session} (h : s.HasSoundCaches) (fs : FileSystem)
    (faults : PassFaults) : ((s.scanRoot fs faults).map PassScan.files).getD [] =
      s.workspace.filesFound fs faults.scan.isSome := by
  unfold Session.scanRoot Workspace.filesFound
  by_cases henabled : s.workspace.settings.scan.enabled = true
  · simp only [henabled, if_true, Bool.true_and]
    cases faults.scan with
    | none => exact (Scan.run_eq fs s.root s.workspace.scanFilter h.getD).1
    | some fault => rfl
  · simp only [henabled]
    rfl

/-- A pass that reads the database and is finished at once makes the project
of a first pass. -/
theorem HasSoundCaches.fresh {s : Session} (h : s.HasSoundCaches) {fs : FileSystem}
    (hchanged : s.unchanged? fs = none) (faults : PassFaults) : ∃ project,
      ((s.start fs faults).finish fs).1 = .success project ∧
      (project.tree, project.build) = s.workspace.fresh fs faults ∧
      project.fingerprint = fingerprintOf s.workspace.settings fs := by
  have hpending := start_pending_of_changed s fs faults hchanged
  have hfinish := finish_of_read hpending rfl (start_cancelled s fs faults) fs
  refine ⟨_, congrArg Prod.fst hfinish, ?_, rfl⟩
  unfold projectOf Workspace.fresh
  rw [start_workspace, h.scanned fs faults, ← readDatabase_contents]

/-! ## The end of a run -/

/-- The run, finished now, ends in the success of a pass under these settings
and over this file system, in which these tasks break off. No other pass was
started after it, and the root was not set. A reparse is a start that is finished
at once. -/
def EndsInSuccess (workspace : Workspace) (calls : List Call) (settings : Settings)
    (fs : FileSystem) (faults : PassFaults) (project : Project) : Prop :=
  (((new workspace).run calls).1.finish fs).1 = .success project ∧
    ∃ before between, calls = before ++ ⟨fs, .start faults⟩ :: between ∧
      ((new workspace).run before).1.workspace.settings = settings ∧
      ∀ call ∈ between, call.operation = .finish ∨ call.operation = .cancel

theorem perform_not_inFlight (s : Session) {call : Call}
    (h : call.operation = .finish ∨ call.operation = .cancel) :
    ¬ (s.perform call).1.InFlight := by
  unfold perform
  rcases h with h | h <;> rw [h]
  · exact not_inFlight_of_none (finish_pending s call.fs)
  · rintro ⟨hrunning, -⟩
    cases hrunning

/-- A pass that is to succeed is neither finished nor cancelled before. -/
theorem eq_nil_of_inFlight {s : Session} {between : List Call}
    (h : ∀ call ∈ between, call.operation = .finish ∨ call.operation = .cancel)
    (hflight : (s.run between).1.InFlight) : between = [] := by
  induction between using List.reverseRecOn with
  | nil => rfl
  | append_singleton between call _ =>
    rw [run_concat] at hflight
    exact absurd hflight (perform_not_inFlight _ (h call (by simp)))

/-- Whatever came before, a pass succeeds once the root was set, and whatever
breaks off in it. -/
theorem endsInSuccess_of_setRoot (workspace : Workspace) (calls : List Call) (root : Path)
    (fs : FileSystem) (faults : PassFaults) : ∃ project,
      EndsInSuccess workspace (calls ++ [⟨fs, .setRoot root⟩, ⟨fs, .start faults⟩])
        { workspace.settings with root := root } fs faults project := by
  have hstate := run_concat (new workspace) calls ⟨fs, .setRoot root⟩
  have hkeeps := run_keepsWorkspace workspace (calls ++ [⟨fs, .setRoot root⟩])
  have hsound := run_hasSoundCaches workspace (calls ++ [⟨fs, .setRoot root⟩])
  have hroot : ((new workspace).run (calls ++ [⟨fs, .setRoot root⟩])).1.root = root := by
    rw [hstate]
    rfl
  have hchanged :
      ((new workspace).run (calls ++ [⟨fs, .setRoot root⟩])).1.unchanged? fs = none := by
    apply unchanged?_of_previous_none
    rw [hstate]
    rfl
  obtain ⟨project, hsuccess, -⟩ := hsound.fresh hchanged faults
  refine ⟨project, ?_, calls ++ [⟨fs, .setRoot root⟩], [], by simp, ?_, nofun⟩
  · rw [List.append_cons, run_concat]
    exact hsuccess
  · rw [hkeeps, hroot]

/-- The project at the end of a run is that of a first pass. -/
theorem EndsInSuccess.fresh {workspace : Workspace} {calls : List Call} {settings : Settings}
    {fs : FileSystem} {faults : PassFaults} {project : Project}
    (h : EndsInSuccess workspace calls settings fs faults project) :
    (project.tree, project.build) =
        (⟨settings, workspace.tools, workspace.host⟩ : Workspace).fresh fs faults ∧
      project.fingerprint = fingerprintOf settings fs := by
  obtain ⟨hsuccess, before, between, rfl, hsettings, hbetween⟩ := h
  have hflight := inFlight_of_success hsuccess
  rw [run_append] at hsuccess hflight
  obtain rfl : between = [] := eq_nil_of_inFlight hbetween hflight
  have hsound := run_hasSoundCaches workspace before
  have hworkspace : ((new workspace).run before).1.workspace =
      ⟨settings, workspace.tools, workspace.host⟩ := by
    rw [← hsettings, run_keepsWorkspace]
  generalize ((new workspace).run before).1 = s at *
  obtain ⟨project', hproject', hfresh, hfingerprint⟩ :=
    hsound.fresh (unchanged?_of_inFlight hflight) faults
  cases hsuccess.symm.trans hproject'
  rw [hworkspace] at hfresh hfingerprint
  exact ⟨hfresh, hfingerprint⟩

/-- Two runs that end in the success of a pass under the same settings and over
the same file system, seen from the same directory, publish the same tree and
the same build of the same database, whatever either of them went through before.
What is asked of the two passes is that the same tasks break off. -/
theorem success_independent_of_history {workspace₁ workspace₂ : Workspace}
    {calls₁ calls₂ : List Call} {settings : Settings} {fs : FileSystem}
    {faults₁ faults₂ : PassFaults} {project₁ project₂ : Project}
    (htools : workspace₁.tools = workspace₂.tools) (hhost : workspace₁.host = workspace₂.host)
    (hfaults : Workspace.BreaksAlike ⟨settings, workspace₁.tools, workspace₁.host⟩ faults₁ faults₂)
    (h₁ : EndsInSuccess workspace₁ calls₁ settings fs faults₁ project₁)
    (h₂ : EndsInSuccess workspace₂ calls₂ settings fs faults₂ project₂) :
    project₁.tree = project₂.tree ∧ project₁.build = project₂.build ∧
      project₁.fingerprint = project₂.fingerprint := by
  obtain ⟨hfresh₁, hfingerprint₁⟩ := h₁.fresh
  obtain ⟨hfresh₂, hfingerprint₂⟩ := h₂.fresh
  rw [hfaults.fresh_eq, htools, hhost, ← hfresh₂] at hfresh₁
  obtain ⟨htree, hbuild⟩ := Prod.mk.inj hfresh₁
  exact ⟨htree, hbuild, hfingerprint₁.trans hfingerprint₂.symm⟩

/-- A first pass, and one after a pass that succeeded, one that was cancelled,
and two moves of the root. In both of them the scan breaks off, early in one and
late in the other. -/
theorem success_independent_of_history_emptyDatabase :
    let workspace₁ : Workspace := ⟨.ofDatabase ⟨"/db"⟩, .empty, .unix⟩
    let workspace₂ : Workspace :=
      ⟨{ Settings.ofDatabase ⟨"/db"⟩ with root := ⟨"/x"⟩ }, .empty, .unix⟩
    let faults₁ : PassFaults := ⟨none, some ⟨[], "task 2 panicked"⟩⟩
    let faults₂ : PassFaults := ⟨none, some ⟨[], "task 8 panicked"⟩⟩
    let calls₁ := callsOn emptyDatabase [.setRoot ⟨"/"⟩, .start faults₁]
    let calls₂ := callsOn emptyDatabase
      [.reparse, .setRoot ⟨"/other"⟩, .start, .cancel, .finish, .setRoot ⟨"/"⟩, .start faults₂]
    ∃ project₁ project₂,
      EndsInSuccess workspace₁ calls₁ (.ofDatabase ⟨"/db"⟩) emptyDatabase faults₁ project₁ ∧
      EndsInSuccess workspace₂ calls₂ (.ofDatabase ⟨"/db"⟩) emptyDatabase faults₂ project₂ ∧
      project₁.tree = project₂.tree ∧ project₁.build = project₂.build ∧
      project₁.fingerprint = project₂.fingerprint := by
  intro workspace₁ workspace₂ faults₁ faults₂ calls₁ calls₂
  have hroot : (Settings.ofDatabase ⟨"/db"⟩).root = ⟨"/"⟩ := by decide
  have hsettings : { Settings.ofDatabase ⟨"/db"⟩ with root := ⟨"/"⟩ } =
      Settings.ofDatabase ⟨"/db"⟩ := by rw [← hroot]
  obtain ⟨project₁, h₁⟩ :=
    endsInSuccess_of_setRoot workspace₁ [] ⟨"/"⟩ emptyDatabase faults₁
  obtain ⟨project₂, h₂⟩ := endsInSuccess_of_setRoot workspace₂ (callsOn emptyDatabase
    [.reparse, .setRoot ⟨"/other"⟩, .start, .cancel, .finish]) ⟨"/"⟩ emptyDatabase faults₂
  have h₁' : EndsInSuccess workspace₁ calls₁ (.ofDatabase ⟨"/db"⟩) emptyDatabase faults₁ project₁ :=
    hsettings ▸ h₁
  have h₂' : EndsInSuccess workspace₂ calls₂ (.ofDatabase ⟨"/db"⟩) emptyDatabase faults₂ project₂ :=
    hsettings ▸ h₂
  have htools : workspace₁.tools = workspace₂.tools := rfl
  have hhost : workspace₁.host = workspace₂.host := rfl
  have hfaults : workspace₁.BreaksAlike faults₁ faults₂ := ⟨rfl, fun _ => rfl⟩
  exact ⟨project₁, project₂, h₁', h₂',
    success_independent_of_history htools hhost hfaults h₁' h₂'⟩

/-- A database with one record at the top, seen from some directory. -/
def oneRecordSeenFrom (names : List String) : FileSystem :=
  ⟨.directory [("db", .file "[\x7b\"file\":\"a\"\x7d]".toUTF8.toList), ("x", .directory [])],
    some names⟩

/-- The task that reads the database breaks off. -/
def brokenParse : PassFaults := ⟨some ⟨[], "task 1 panicked"⟩, none⟩

/-- Two first passes with the same settings over the same entries. In the first
pair, the task that reads the database breaks off in one of the two. In the
second pair, the path of the database is seen from two directories. -/
theorem success_depends_on_tasks_and_directory :
    (∃ project₁ project₂,
      EndsInSuccess ⟨.ofDatabase ⟨"/db"⟩, .empty, .unix⟩
        (callsOn (oneRecordSeenFrom []) [.setRoot ⟨"/"⟩, .start])
        { Settings.ofDatabase ⟨"/db"⟩ with root := ⟨"/"⟩ } (oneRecordSeenFrom []) .none project₁ ∧
      EndsInSuccess ⟨.ofDatabase ⟨"/db"⟩, .empty, .unix⟩
        (callsOn (oneRecordSeenFrom []) [.setRoot ⟨"/"⟩, .start brokenParse])
        { Settings.ofDatabase ⟨"/db"⟩ with root := ⟨"/"⟩ } (oneRecordSeenFrom []) brokenParse
        project₂ ∧
      project₁.build ≠ project₂.build) ∧
    ∃ project₁ project₂,
      EndsInSuccess ⟨.ofDatabase ⟨"db"⟩, .empty, .unix⟩
        (callsOn (oneRecordSeenFrom []) [.setRoot ⟨"/"⟩, .start])
        { Settings.ofDatabase ⟨"db"⟩ with root := ⟨"/"⟩ } (oneRecordSeenFrom []) .none project₁ ∧
      EndsInSuccess ⟨.ofDatabase ⟨"db"⟩, .empty, .unix⟩
        (callsOn (oneRecordSeenFrom ["x"]) [.setRoot ⟨"/"⟩, .start])
        { Settings.ofDatabase ⟨"db"⟩ with root := ⟨"/"⟩ } (oneRecordSeenFrom ["x"]) .none
        project₂ ∧
      (oneRecordSeenFrom []).root = (oneRecordSeenFrom ["x"]).root ∧
      project₁.fingerprint ≠ project₂.fingerprint := by
  constructor
  · obtain ⟨project₁, h₁⟩ := endsInSuccess_of_setRoot ⟨.ofDatabase ⟨"/db"⟩, .empty, .unix⟩ []
      ⟨"/"⟩ (oneRecordSeenFrom []) .none
    obtain ⟨project₂, h₂⟩ := endsInSuccess_of_setRoot ⟨.ofDatabase ⟨"/db"⟩, .empty, .unix⟩ []
      ⟨"/"⟩ (oneRecordSeenFrom []) brokenParse
    have hbuild₁ := congrArg (·.2.parts.length) h₁.fresh.1
    have hbuild₂ := congrArg (·.2.parts.length) h₂.fresh.1
    refine ⟨project₁, project₂, h₁, h₂, fun hbuild => ?_⟩
    have hone : project₁.build.parts.length = 1 := hbuild₁.trans (by decide +kernel)
    have hnone : project₂.build.parts.length = 0 := hbuild₂.trans (by decide +kernel)
    rw [hbuild, hnone] at hone
    cases hone
  · obtain ⟨project₁, h₁⟩ := endsInSuccess_of_setRoot ⟨.ofDatabase ⟨"db"⟩, .empty, .unix⟩ []
      ⟨"/"⟩ (oneRecordSeenFrom []) .none
    obtain ⟨project₂, h₂⟩ := endsInSuccess_of_setRoot ⟨.ofDatabase ⟨"db"⟩, .empty, .unix⟩ []
      ⟨"/"⟩ (oneRecordSeenFrom ["x"]) .none
    refine ⟨project₁, project₂, h₁, h₂, rfl, fun hfingerprint => ?_⟩
    rw [h₁.fresh.2, h₂.fresh.2] at hfingerprint
    exact absurd (congrArg Option.isSome hfingerprint) (by decide +kernel)

end Session

end CompileCommands
