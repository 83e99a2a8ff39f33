-- The records of a text with their flags written out. Their keys are
-- forgotten here: what is read depends on the findings in the text alone.
import CompileCommands.Database
import CompileCommands.Proofs.Database.Extraction
import CompileCommands.Proofs.Flags.Table

namespace CompileCommands

/-- The record with its flags written out. -/
def CompileRecord.plain (table : FlagTable) (r : CompileRecord) : Database.PlainRecord :=
  ⟨table.flagsOf r.flags, r.sourceFile, r.directory⟩

namespace Database

/-- The records with their flags written out. -/
def Records.plain (read : Records) : List PlainRecord := read.records.map (·.plain read.table)

/-! ## Keys and flags -/

theorem internRecords_extends (table : FlagTable) (plain : List PlainRecord) :
    table.Extends (internRecords table plain).2 := by
  induction plain generalizing table with
  | nil => exact FlagTable.Extends.refl table
  | cons r plain ih =>
    exact (table.internAll_extends r.flags).trans (ih (table.internAll r.flags).2)

theorem internRecords_holds (table : FlagTable) (plain : List PlainRecord) :
    ∀ r ∈ (internRecords table plain).1, (internRecords table plain).2.Holds r.flags := by
  induction plain generalizing table with
  | nil => exact fun _ h => nomatch h
  | cons p plain ih =>
    intro r hr
    rcases List.mem_cons.mp hr with rfl | hr
    · have hmore := internRecords_extends (table.internAll p.flags).2 plain
      exact hmore.holds (table.internAll_holds p.flags)
    · exact ih (table.internAll p.flags).2 r hr

/-- Interned records are read back as they were. -/
theorem internRecords_plain (table : FlagTable) (plain : List PlainRecord) :
    (internRecords table plain).1.map (·.plain (internRecords table plain).2) = plain := by
  induction plain generalizing table with
  | nil => rfl
  | cons p plain ih =>
    have hmore := internRecords_extends (table.internAll p.flags).2 plain
    have hflags := hmore.flagsOf (table.internAll_holds p.flags)
    rw [table.internAll_flagsOf p.flags] at hflags
    refine List.cons_eq_cons.mpr ⟨?_, ih (table.internAll p.flags).2⟩
    exact congrArg (PlainRecord.mk · p.sourceFile p.directory) hflags

/-! ## Records and drafts -/

theorem recordOf_eq_some {fs : FileSystem} {d : Draft} {r : PlainRecord}
    (h : recordOf fs d = some r) :
    r.directory = Path.ofNative d.directoryText ∧
      r.sourceFile = sourceFileOf fs r.directory (Path.ofNative d.fileText) ∧
      r.flags = Flags.withoutUnit (tokensOf d) r.sourceFile.baseName := by
  unfold recordOf at h
  split at h
  · cases h
  · simp only [Option.some.injEq] at h
    rw [← h]
    simp only [and_self]

theorem fileText_ne_of_recordOf {fs : FileSystem} {d : Draft} {r : PlainRecord}
    (h : recordOf fs d = some r) : d.fileText ≠ "" := by
  intro hnone
  unfold recordOf at h
  rw [if_pos hnone] at h
  cases h

/-- A file that is not found is where its text says, seen from the directory. -/
theorem sourceFileOf_eq_absolutize {fs : FileSystem} {directory file : Path}
    (h : ∀ found, file.isAbsolute = false → fs.canonical (directory.join file) ≠ .ok found) :
    sourceFileOf fs directory file = file.absolutize directory := by
  unfold sourceFileOf Path.absolutize canonicalOrNormal
  split
  · rfl
  · rename_i hrelative
    split
    · rename_i found hcanonical
      exact absurd hcanonical (h found (Bool.eq_false_iff.mpr hrelative))
    · rfl

theorem outcome_toOption (fs : FileSystem) (source : Path) (f : Finding) :
    (f.outcome fs source).toOption = f.draft?.bind (recordOf fs) := by
  cases f with
  | malformed first message => rfl
  | record first draft =>
    simp only [Finding.outcome, Finding.draft?, Option.bind_some]
    cases recordOf fs draft <;> rfl

/-- The records of a text are those of its drafts. -/
theorem readRecords_plain (fs : FileSystem) (source : Path) (bytes : List UInt8) :
    (readRecords fs source bytes).plain = (drafts bytes).filterMap (recordOf fs) := by
  unfold readRecords Records.plain drafts
  rw [internRecords_plain, List.filterMap_map, List.filterMap_filterMap]
  congr 1
  funext f
  exact outcome_toOption fs source f

theorem mem_plain_of_recordOf {fs : FileSystem} {source : Path} {bytes : List UInt8} {d : Draft}
    {r : PlainRecord} (hd : d ∈ drafts bytes) (h : recordOf fs d = some r) :
    r ∈ (readRecords fs source bytes).plain := by
  rw [readRecords_plain]
  exact List.mem_filterMap.mpr ⟨d, hd, h⟩

theorem readRecords_holds (fs : FileSystem) (source : Path) (bytes : List UInt8) :
    ∀ r ∈ (readRecords fs source bytes).records,
      (readRecords fs source bytes).table.Holds r.flags :=
  internRecords_holds .empty _

end Database

end CompileCommands
