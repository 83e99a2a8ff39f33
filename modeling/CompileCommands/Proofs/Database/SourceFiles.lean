-- The source files of records. Each is normalized, but a relative file is seen
-- from the directory of its record, and that directory is taken as it is given.
-- So a source file leads from the root down just if the record names the root,
-- in its file or in its directory.
import CompileCommands.Proofs.Database.Writing
import CompileCommands.Proofs.Path.Joining

namespace CompileCommands.Database

open CompileCommands.Path Record Utf8

/-! ## Places that are looked up -/

theorem lookups_eq (bytes : List UInt8) : lookups bytes = (drafts bytes).filterMap lookupOf := by
  unfold lookups drafts
  rw [List.filterMap_filterMap]
  congr 1
  funext f
  cases f <;> rfl

theorem lookupOf_eq_some {d : Draft} {p : Path} (h : lookupOf d = some p) :
    (ofNative d.fileText).isAbsolute = false ∧
      (ofNative d.directoryText).join (ofNative d.fileText) = p := by
  unfold lookupOf at h
  simp only [Option.ite_none_left_eq_some, not_or, Bool.not_eq_true, Option.some.injEq] at h
  exact ⟨h.1.2, h.2⟩

/-- None of the places that are looked up for the records of a text is there. -/
def FindsNone (fs : FileSystem) (bytes : List UInt8) : Prop :=
  ∀ p ∈ lookups bytes, ∀ found, fs.canonical p ≠ .ok found

theorem FindsNone.lookup {fs : FileSystem} {bytes : List UInt8} (h : FindsNone fs bytes)
    {d : Draft} (hd : d ∈ drafts bytes) (hnamed : d.fileText ≠ "") (found : Path)
    (hrelative : (ofNative d.fileText).isAbsolute = false) :
    fs.canonical ((ofNative d.directoryText).join (ofNative d.fileText)) ≠ .ok found := by
  refine h _ ?_ found
  rw [lookups_eq]
  exact List.mem_filterMap.mpr ⟨d, hd, by simp [lookupOf, hnamed, hrelative]⟩

/-! ## Places of source files -/

/-- The record names the root, in its file or in its directory. -/
def NamesRoot (d : Draft) : Prop :=
  (ofNative d.fileText).isAbsolute = true ∨ (ofNative d.directoryText).isAbsolute = true

theorem isNormal_absolutize (p base : Path) : IsNormal (p.absolutize base).components := by
  unfold absolutize
  split <;> exact components_normalize _ ▸ isNormal_normalComponents _

theorem isResolved_absolutize_iff {p base : Path} :
    (p.absolutize base).IsResolved ↔ p.isAbsolute = true ∨ base.isAbsolute = true := by
  rw [isResolved_iff, and_iff_left (isNormal_absolutize p base), isAbsolute_absolutize,
    Bool.or_eq_true]

/-- The records of a text are those of its drafts. If no file is found, then each
source file is normalized, but it is absolute and without `..` just if its record
names the root. -/
theorem sourceFile_isResolved_iff (fs : FileSystem) (source : Path) (bytes : List UInt8)
    (h : FindsNone fs bytes) :
    (readRecords fs source bytes).plain = (drafts bytes).filterMap (recordOf fs) ∧
      ∀ d ∈ drafts bytes, ∀ r, recordOf fs d = some r →
        IsNormal r.sourceFile.components ∧ (r.sourceFile.IsResolved ↔ NamesRoot d) := by
  refine ⟨readRecords_plain fs source bytes, ?_⟩
  intro d hd r hrecord
  have hnamed := fileText_ne_of_recordOf hrecord
  obtain ⟨hdirectory, hfile, -⟩ := recordOf_eq_some hrecord
  have hplace : r.sourceFile = (ofNative d.fileText).absolutize (ofNative d.directoryText) := by
    rw [hfile, hdirectory, sourceFileOf_eq_absolutize (h.lookup hd hnamed)]
  rw [hplace]
  exact ⟨isNormal_absolutize _ _, isResolved_absolutize_iff⟩

/-! ## Written records -/

theorem findsNone_writtenText {fs : FileSystem} {records : List Written}
    (h : ∀ w ∈ records, IsMissing fs w) : FindsNone fs (ofText (writtenText records)) := by
  intro p hp found
  rw [lookups_eq, drafts_writtenText] at hp
  obtain ⟨d, hd, hlookup⟩ := List.mem_filterMap.mp hp
  obtain ⟨w, hw, rfl⟩ := List.mem_map.mp hd
  obtain ⟨hrelative, rfl⟩ := lookupOf_eq_some hlookup
  exact (h w hw).missing found hrelative

/-- A relative file, seen from a directory that names the root or does not. -/
def seenFrom (directory : String) : Written := ⟨directory, "..\\a.c", ["cc"]⟩

theorem isMissing_seenFrom {directory : String} {e : IoError}
    (h : FileSystem.empty.canonical ((ofNative directory).join ⟨"../a.c"⟩) = .error e) :
    IsMissing .empty (seenFrom directory) where
  named := (by decide : "..\\a.c" ≠ "")
  missing := by
    intro found _ hfound
    have hfile : ofNative "..\\a.c" = ⟨"../a.c"⟩ := by decide
    rw [seenFrom, hfile, h] at hfound
    cases hfound

/-- Seen from a directory below the root, the file is below the root, though it is
written with a `..` and a backslash. -/
theorem sourceFile_isResolved_iff_seenFrom :
    let w := seenFrom "/proj/build"
    let bytes := ofText (writtenText [w])
    FindsNone .empty bytes ∧ w.draft ∈ drafts bytes ∧ recordOf .empty w.draft = some (plainOf w) ∧
      NamesRoot w.draft ∧ (plainOf w).sourceFile.text = "/proj/a.c" ∧
      (plainOf w).sourceFile.IsResolved := by
  intro w bytes
  have hmissing : IsMissing .empty w := isMissing_seenFrom (e := .notFound) (by decide +kernel)
  have hfinds : FindsNone .empty bytes := findsNone_writtenText (by simpa using hmissing)
  have hdraft : w.draft ∈ drafts bytes := by
    rw [drafts_writtenText]
    exact List.mem_singleton_self _
  have hrecord := recordOf_draft hmissing
  have hroot : NamesRoot w.draft := .inr (by decide)
  have hresolved := (sourceFile_isResolved_iff .empty ⟨"db"⟩ bytes hfinds).2 _ hdraft _ hrecord
  exact ⟨hfinds, hdraft, hrecord, hroot, by decide +kernel, hresolved.2.mpr hroot⟩

/-- Seen from a relative directory, the file climbs above its start. -/
theorem not_sourceFile_isResolved_of_relative :
    ¬ ∀ (fs : FileSystem) (source : Path) (bytes : List UInt8), FindsNone fs bytes →
      ∀ r ∈ (readRecords fs source bytes).plain, r.sourceFile.IsResolved := by
  intro hall
  let w := seenFrom ".."
  have hmissing : IsMissing .empty w := isMissing_seenFrom (e := .notFound) (by decide +kernel)
  have hmem : plainOf w ∈ (readRecords .empty ⟨"db"⟩ (ofText (writtenText [w]))).plain := by
    rw [readRecords_plain, drafts_writtenText]
    exact List.mem_filterMap.mpr ⟨w.draft, List.mem_singleton_self _, recordOf_draft hmissing⟩
  have hresolved := hall .empty ⟨"db"⟩ _ (findsNone_writtenText (by simpa using hmissing)) _ hmem
  have hrelative : (plainOf w).sourceFile.isAbsolute = false := by decide +kernel
  rw [hresolved.absolute] at hrelative
  cases hrelative

end CompileCommands.Database
