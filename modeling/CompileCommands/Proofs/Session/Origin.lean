-- Where a success comes from. The pass that succeeds was started by one call
-- of the run, and after that call nothing was done but to set the root. So the
-- state at that call, and the root that is set at the end, say all of the
-- project: the directory that was scanned is the root of that state, and the
-- tree shows the root that is set at the end.
import CompileCommands.Proofs.ProjectTree.Roots
import CompileCommands.Proofs.Session.RootChange
import Mathlib.Data.List.Induction

namespace CompileCommands.Session

/-! ## The root of a session -/

def root (s : Session) : Path := s.workspace.settings.root

/-- The session with the roots set one after another. -/
def setRoots (s : Session) (roots : List Path) : Session := roots.foldl setRoot s

/-- The workspace is as it was, but for the root. -/
def KeepsWorkspace (workspace : Workspace) (s : Session) : Prop :=
  s.workspace = { workspace with settings := { workspace.settings with root := s.root } }

theorem KeepsWorkspace.setRoot {workspace : Workspace} {s : Session}
    (h : KeepsWorkspace workspace s) (root : Path) : KeepsWorkspace workspace (s.setRoot root) := by
  unfold KeepsWorkspace Session.setRoot
  rw [h]
  rfl

theorem run_keepsWorkspace (workspace : Workspace) (calls : List Call) :
    KeepsWorkspace workspace ((new workspace).run calls).1 := by
  have hnew : KeepsWorkspace workspace (new workspace) := rfl
  apply run_keeps hnew
  intro s call _ h
  apply perform_keeps h
  · intro s faults h
    simpa [KeepsWorkspace, root] using h
  · intro s h
    simpa [KeepsWorkspace, root] using h
  · exact fun s h => h
  · exact fun s root h => h.setRoot root

section SetRoots

variable (s : Session) (roots : List Path)

@[simp]
theorem setRoots_pending : (s.setRoots roots).pending = s.pending := by
  induction roots generalizing s with
  | nil => rfl
  | cons root roots ih => exact ih (s.setRoot root)

@[simp]
theorem setRoots_cancelled : (s.setRoots roots).cancelled = s.cancelled := by
  induction roots generalizing s with
  | nil => rfl
  | cons root roots ih => exact ih (s.setRoot root)

@[simp]
theorem setRoots_root : (s.setRoots roots).root = roots.getLast?.getD s.root := by
  induction roots generalizing s with
  | nil => rfl
  | cons root roots ih =>
    have hrest := ih (s.setRoot root)
    rw [List.getLast?_cons]
    exact hrest

end SetRoots

/-! ## The start of the pass under way -/

theorem run_append (s : Session) (calls more : List Call) :
    (s.run (calls ++ more)).1 = ((s.run calls).1.run more).1 := by
  induction calls generalizing s with
  | nil => rfl
  | cons call calls ih => exact ih (s.perform call).1

theorem run_concat (s : Session) (calls : List Call) (call : Call) :
    (s.run (calls ++ [call])).1 = ((s.run calls).1.perform call).1 :=
  run_append s calls [call]

theorem run_setRoots (s : Session) {calls : List Call} {roots : List Path}
    (h : calls.map Call.operation = roots.map Operation.setRoot) :
    (s.run calls).1 = s.setRoots roots := by
  induction calls generalizing s roots with
  | nil =>
    cases roots with
    | nil => rfl
    | cons => cases h
  | cons call calls ih =>
    cases roots with
    | nil => cases h
    | cons root roots =>
      obtain ⟨hcall, hcalls⟩ := List.cons.inj h
      have hfirst : (s.perform call).1 = s.setRoot root := by
        unfold perform
        rw [hcall]
      refine (ih (s.perform call).1 hcalls).trans ?_
      rw [hfirst]
      rfl

/-- In the run, a pass that reads the database was started after the first
calls, and since then nothing was done but to set these roots. -/
def StartedAt (workspace : Workspace) (calls before : List Call) (startFs : FileSystem)
    (faults : PassFaults) (roots : List Path) : Prop :=
  ((new workspace).run before).1.unchanged? startFs = none ∧
    ∃ between, calls = before ++ ⟨startFs, .start faults⟩ :: between ∧
      between.map Call.operation = roots.map Operation.setRoot

section StartedAt

variable {workspace : Workspace} {calls before : List Call} {startFs : FileSystem}
  {faults : PassFaults} {roots : List Path}

theorem StartedAt.setRoot (h : StartedAt workspace calls before startFs faults roots)
    (fs : FileSystem) (root : Path) :
    StartedAt workspace (calls ++ [⟨fs, .setRoot root⟩]) before startFs faults
      (roots ++ [root]) := by
  obtain ⟨hchanged, between, rfl, hbetween⟩ := h
  refine ⟨hchanged, between ++ [⟨fs, .setRoot root⟩], by simp, ?_⟩
  rw [List.map_append, List.map_append, hbetween]
  rfl

theorem StartedAt.state (h : StartedAt workspace calls before startFs faults roots) :
    ((new workspace).run calls).1 =
      (((new workspace).run before).1.start startFs faults).setRoots roots := by
  obtain ⟨-, between, rfl, hbetween⟩ := h
  rw [run_append]
  exact run_setRoots _ hbetween

end StartedAt

theorem unchanged?_of_inFlight {s : Session} {fs : FileSystem} {faults : PassFaults}
    (h : (s.start fs faults).InFlight) : s.unchanged? fs = none := by
  obtain ⟨-, pass, _, _, hpending, hwork⟩ := h
  cases hunchanged : s.unchanged? fs with
  | none => rfl
  | some f =>
    have hcached := start_pending_of_unchanged s fs faults hunchanged
    cases hcached.symm.trans hpending
    cases hwork

theorem not_inFlight_of_none {s : Session} (h : s.pending = none) : ¬ s.InFlight := by
  rintro ⟨-, pass, _, _, hpending, -⟩
  cases h.symm.trans hpending

/-- A pass that will succeed was started in some state of the run. -/
theorem inFlight_origin {workspace : Workspace} {calls : List Call}
    (h : ((new workspace).run calls).1.InFlight) :
    ∃ before startFs faults roots, StartedAt workspace calls before startFs faults roots := by
  induction calls using List.reverseRecOn with
  | nil => exact absurd h (not_inFlight_of_none rfl)
  | append_singleton calls call ih =>
    obtain ⟨fs, operation⟩ := call
    rw [run_concat] at h
    cases operation with
    | start faults => exact ⟨calls, fs, faults, [], unchanged?_of_inFlight h, [], rfl, rfl⟩
    | finish | reparse => exact absurd h (not_inFlight_of_none (finish_pending _ fs))
    | cancel =>
      obtain ⟨hrunning, -⟩ := h
      cases hrunning
    | setRoot root =>
      obtain ⟨before, startFs, faults, roots, hstarted⟩ := ih h
      exact ⟨before, startFs, faults, roots ++ [root], hstarted.setRoot fs root⟩

/-! ## The scan and the tree -/

/-- The scan of the pass under way. -/
def scan? (s : Session) : Option PassScan :=
  match s.pending with
  | some ⟨_, _, .read _ scan⟩ => scan
  | _ => none

@[simp]
theorem projectOf_tree_path (s : Session) (fs : FileSystem) (pass : Pass) (parse : PassParse)
    (scan : Option PassScan) : (s.projectOf fs pass parse scan).tree.path = s.root :=
  Folder.ofInputs_path fs _

theorem Finishes.inFlight {s s' : Session} {fs : FileSystem} {project : Project}
    (h : s.Finishes fs (.success project) s') : s.InFlight := by
  cases h with
  | @success pass parse scan _ hpending hwork hrunning =>
    exact ⟨hrunning, pass, parse, scan, hpending, hwork⟩

theorem inFlight_of_success {s : Session} {fs : FileSystem} {project : Project}
    (h : (s.finish fs).1 = .success project) : s.InFlight :=
  (h ▸ finish_finishes s fs).inFlight

section Later

variable {s : Session} {startFs : FileSystem} (h : s.unchanged? startFs = none)
  (faults : PassFaults) (roots : List Path)
include h

/-- The pass that is started now, when it is finished after some roots were set. -/
theorem finish_setRoots (fs : FileSystem) :
    ∃ project, (((s.start startFs faults).setRoots roots).finish fs).1 = .success project ∧
      project.tree.path = roots.getLast?.getD s.root := by
  have hpending : ((s.start startFs faults).setRoots roots).pending =
      some (s.readingPass startFs faults) := by
    rw [setRoots_pending, start_pending_of_changed s startFs faults h]
  refine ⟨_, congrArg Prod.fst (finish_of_read hpending rfl (by simp) fs), ?_⟩
  rw [projectOf_tree_path, setRoots_root]
  simp [root]

theorem scan?_setRoots :
    ((s.start startFs faults).setRoots roots).scan? = s.scanRoot startFs faults := by
  unfold scan?
  rw [setRoots_pending, start_pending_of_changed s startFs faults h]
  rfl

end Later

/-! ## Projects of one root -/

/-- The tree of the project that the pass under way publishes shows the
directory that was scanned for it. -/
def BuiltFromOneRoot (fs : FileSystem) (s : Session) : Prop :=
  ∀ scan project, s.scan? = some scan → (s.finish fs).1 = .success project →
    project.tree.path = scan.root

theorem builtFromOneRoot_setRoots {s : Session} {startFs : FileSystem}
    (h : s.unchanged? startFs = none) (faults : PassFaults) (roots : List Path)
    (fs : FileSystem) :
    BuiltFromOneRoot fs ((s.start startFs faults).setRoots roots) ↔
      (s.workspace.settings.scan.enabled = true → roots.getLast?.getD s.root = s.root) := by
  obtain ⟨project, hsuccess, hpath⟩ := finish_setRoots h faults roots fs
  unfold BuiltFromOneRoot
  rw [scan?_setRoots h, hsuccess]
  unfold scanRoot
  constructor
  · intro hone henabled
    rw [if_pos henabled] at hone
    exact hpath.symm.trans (hone _ project rfl rfl)
  · intro hroots scan project' hscan hproject
    cases hproject
    by_cases henabled : s.workspace.settings.scan.enabled = true
    · rw [if_pos henabled] at hscan
      cases hscan
      exact hpath.trans (hroots henabled)
    · rw [if_neg henabled] at hscan
      cases hscan

/-- In each state that a run leads to, the project that is published next is
built from one root if the root is, at the end, the one of the start of its
pass, and only then. What was scanned is the root of the start. -/
theorem builtFromOneRoot_iff (workspace : Workspace) (calls : List Call) (fs : FileSystem) :
    let s := ((new workspace).run calls).1
    (BuiltFromOneRoot fs s ↔ ∀ before startFs faults roots,
      StartedAt workspace calls before startFs faults roots →
      workspace.settings.scan.enabled = true →
        let started := ((new workspace).run before).1.root
        roots.getLast?.getD started = started) ∧
    ∀ before startFs faults roots, StartedAt workspace calls before startFs faults roots →
      s.scan? = ((new workspace).run before).1.scanRoot startFs faults := by
  intro s
  have hscan : ∀ before, ((new workspace).run before).1.workspace.settings.scan =
      workspace.settings.scan := by
    intro before
    rw [run_keepsWorkspace]
  constructor
  · constructor
    · intro hone before startFs faults roots hstarted henabled
      have hstate : s = _ := hstarted.state
      rw [hstate, builtFromOneRoot_setRoots hstarted.1, hscan] at hone
      exact hone henabled
    · intro hroots scan project hscan? hsuccess
      obtain ⟨before, startFs, faults, roots, hstarted⟩ :=
        inFlight_origin (inFlight_of_success hsuccess)
      have hone : BuiltFromOneRoot fs s := by
        have hstate : s = _ := hstarted.state
        rw [hstate, builtFromOneRoot_setRoots hstarted.1, hscan]
        exact hroots before startFs faults roots hstarted
      exact hone scan project hscan? hsuccess
  · intro before startFs faults roots hstarted
    have hstate : s = _ := hstarted.state
    rw [hstate, scan?_setRoots hstarted.1]

/-- The root moves while the database at the top is read, and the project is
shown under another directory than the one that was scanned. -/
theorem not_builtFromOneRoot_of_setRoot :
    ¬ BuiltFromOneRoot emptyDatabase ((new ⟨.ofDatabase ⟨"/db"⟩, .empty, .unix⟩).run
      (callsOn emptyDatabase [.start, .setRoot ⟨"/other"⟩])).1 := by
  have hchanged : (new ⟨.ofDatabase ⟨"/db"⟩, .empty, .unix⟩).unchanged? emptyDatabase = none :=
    unchanged?_of_previous_none rfl emptyDatabase
  intro hone
  have hroots := (builtFromOneRoot_setRoots hchanged .none [⟨"/other"⟩] emptyDatabase).mp hone rfl
  exact absurd hroots (by decide)

end CompileCommands.Session
