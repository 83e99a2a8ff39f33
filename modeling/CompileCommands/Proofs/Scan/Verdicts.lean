-- What a scan knows of types. A verdict that is remembered is the one that
-- would be given again, so a scan finds the same files whatever it was told
-- by the scans before it.
import CompileCommands.Scan

namespace CompileCommands

/-! ## Remembered verdicts -/

namespace MimeCache

/-- Each verdict is the one that would be given again. -/
def IsSound (c : MimeCache) : Prop :=
  ∀ mime verdict, c.get? mime = some verdict → verdict = Mime.isBinary mime

theorem empty_isSound : empty.IsSound := nofun

theorem IsSound.ask_verdict {c : MimeCache} (h : c.IsSound) (mime : String) :
    (c.ask mime).1 = Mime.isBinary mime := by
  unfold MimeCache.ask
  split
  · exact h mime _ ‹_›
  · rfl

/-- Asking for a type adds the verdict on it. -/
theorem IsSound.ask_get? {c : MimeCache} (h : c.IsSound) {mime other : String}
    {verdict : Bool} : (c.ask mime).2.get? other = some verdict ↔
      c.get? other = some verdict ∨ verdict = Mime.isBinary mime ∧ mime = other := by
  unfold MimeCache.ask
  split
  · rename_i known hknown
    constructor
    · exact .inl
    · rintro (hold | ⟨rfl, rfl⟩)
      · exact hold
      · rw [hknown, h mime known hknown]
  · rename_i hnew
    unfold get? at hnew ⊢
    rw [List.lookup_append, Option.or_eq_some_iff]
    apply or_congr_right
    constructor
    · rintro ⟨-, hadded⟩
      by_cases hsame : other = mime
      · subst hsame
        rw [List.lookup_cons_self] at hadded
        exact ⟨(Option.some.inj hadded).symm, rfl⟩
      · rw [List.lookup_cons, beq_false_of_ne hsame] at hadded
        cases hadded
    · rintro ⟨rfl, rfl⟩
      exact ⟨hnew, List.lookup_cons_self⟩

theorem IsSound.ask {c : MimeCache} (h : c.IsSound) (mime : String) :
    (c.ask mime).2.IsSound := by
  intro other verdict hother
  rcases h.ask_get?.mp hother with hold | ⟨hverdict, rfl⟩
  · exact h other verdict hold
  · exact hverdict

end MimeCache

/-! ## The files of a scan -/

namespace ScanFilter

/-- The file is left out, be it for its name or for its type. -/
def leavesOut (f : ScanFilter) (fs : FileSystem) (file : Path) : Bool :=
  f.ignoresName file || Mime.isBinary (Mime.ofFile fs file)

theorem ignores_eq (f : ScanFilter) (fs : FileSystem) (file : Path) {c : MimeCache}
    (h : c.IsSound) : (f.ignores fs file c).1 = f.leavesOut fs file ∧
      (f.ignores fs file c).2.IsSound := by
  unfold ignores leavesOut
  by_cases hname : f.ignoresName file = true
  · rw [if_pos hname, hname]
    exact ⟨rfl, h⟩
  · rw [if_neg hname, h.ask_verdict, Bool.eq_false_iff.mpr hname, Bool.false_or]
    exact ⟨rfl, h.ask _⟩

end ScanFilter

namespace Scan

/-- The files that a scan of a root is to find. -/
def found (fs : FileSystem) (root : Path) (filter : ScanFilter) : List ScannedFile :=
  match fs.entry root with
  | .ok (.directory entries) =>
    let visits := (Entry.directory entries).visits filter.excludes root
    ((visits.filterMap Visit.file?).filter (!filter.leavesOut fs ·)).map .ofPath
  | _ => []

theorem keep_eq (fs : FileSystem) (filter : ScanFilter) {c : MimeCache} (h : c.IsSound)
    (files : List Path) : (keep fs filter c files).1 =
        (files.filter (!filter.leavesOut fs ·)).map .ofPath ∧
      (keep fs filter c files).2.IsSound := by
  induction files generalizing c with
  | nil => exact ⟨rfl, h⟩
  | cons file rest ih =>
    obtain ⟨hverdict, hsound⟩ := filter.ignores_eq fs file h
    obtain ⟨hrest, hend⟩ := ih hsound
    unfold keep
    simp only [hverdict, hrest]
    refine ⟨?_, hend⟩
    cases hout : filter.leavesOut fs file <;> simp [hout]

/-- A scan finds what it is to find, and learns nothing wrong. -/
theorem run_eq (fs : FileSystem) (root : Path) (filter : ScanFilter) {c : MimeCache}
    (h : c.IsSound) : (run fs root filter c false).files = found fs root filter ∧
      ∀ c', (run fs root filter c false).cache? = some c' → c'.IsSound := by
  unfold run found
  cases fs.entry root with
  | error fault =>
    refine ⟨rfl, ?_⟩
    rintro c' ⟨⟩
    exact h
  | ok e =>
    cases e with
    | file | link =>
      refine ⟨rfl, ?_⟩
      rintro c' ⟨⟩
      exact h
    | directory entries =>
      have hkeep := keep_eq fs filter h
        (((Entry.directory entries).visits filter.excludes root).filterMap Visit.file?)
      simp only [Bool.false_eq_true, if_false]
      refine ⟨hkeep.1, ?_⟩
      rintro c' ⟨⟩
      exact hkeep.2

end Scan

end CompileCommands
