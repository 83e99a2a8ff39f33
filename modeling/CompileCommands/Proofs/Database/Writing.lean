-- Databases that are written are read back. Braces within the strings of a
-- record count for nothing, for its reader ends at the closing brace of the
-- record and at no other.
import CompileCommands.Proofs.Database.Records
import CompileCommands.Proofs.Record.Writing
import Mathlib.Data.List.Basic

namespace CompileCommands.Database

open Record Json Utf8

/-! ## What is told of a text -/

theorem outcome_of_draft? (fs : FileSystem) (source : Path) {f : Finding} {d : Draft}
    (h : f.draft? = some d) (hfile : d.fileText ≠ "") :
    ∃ plain, f.outcome fs source = .ok plain := by
  cases f with
  | malformed first message => cases h
  | record first draft =>
    cases h
    simp [Finding.outcome, recordOf, hfile]

/-- Nothing is told of a text in which all that is found is records with a file. -/
theorem readRecords_diagnostics_eq_nil (fs : FileSystem) (source : Path) {bytes : List UInt8}
    (h : ∀ reading ∈ readings bytes, ∃ d, reading = some d ∧ d.fileText ≠ "") :
    (readRecords fs source bytes).diagnostics = [] := by
  unfold readRecords
  simp only [List.filterMap_map, List.filterMap_eq_nil_iff, Function.comp_apply]
  intro f hf
  obtain ⟨d, hd, hfile⟩ := h f.draft? (List.mem_map_of_mem hf)
  obtain ⟨plain, hplain⟩ := outcome_of_draft? fs source hd hfile
  rw [hplain]

/-! ## Written databases -/

/-- The records between two brackets, each from a line of its own on. -/
def writtenText (records : List Written) : String :=
  "[\n" ++ ",\n".intercalate (records.map Written.text) ++ "\n]"

theorem ofText_written (w : Written) :
    ofText w.text = 0x7B :: (ofText w.membersText ++ [0x7D]) := by
  unfold Written.text
  rw [ofText_append, ofText_append]
  rfl

theorem readings_written (w : Written) (text : List UInt8) :
    readings (ofText w.text ++ text) = some w.draft :: readings text := by
  rw [ofText_written]
  exact readings_record (Reader.closes_written w) text

theorem readings_records (records : List Written) {tail : List UInt8} (htail : readings tail = []) :
    readings (ofText (",\n".intercalate (records.map Written.text)) ++ tail) =
      records.map fun w => some w.draft := by
  induction records with
  | nil => exact htail
  | cons w records ih =>
    cases records with
    | nil =>
      have hsingle : ",\n".intercalate ([w].map Written.text) = w.text := by simp
      rw [hsingle, readings_written, htail]
      rfl
    | cons w' records =>
      have hcomma : 0x7B ∉ ofText ",\n" := by decide
      rw [List.map_cons, List.map_cons, String.intercalate_cons_cons, ofText_append, ofText_append,
        List.append_assoc, List.append_assoc, readings_written, readings_gap hcomma]
      rw [List.map_cons] at ih
      rw [ih]
      rfl

/-- Each written record is found, and nothing else is. -/
theorem readings_writtenText (records : List Written) :
    readings (ofText (writtenText records)) = records.map fun w => some w.draft := by
  have hopen : 0x7B ∉ ofText "[\n" := by decide
  have hclose : readings (ofText "\n]") = [] := readings_eq_nil (by decide)
  unfold writtenText
  rw [ofText_append, ofText_append, List.append_assoc, readings_gap hopen,
    readings_records records hclose]

theorem drafts_writtenText (records : List Written) :
    drafts (ofText (writtenText records)) = records.map Written.draft := by
  rw [drafts_eq_readings, readings_writtenText]
  simp [List.filterMap_map]

/-! ## The records of a written database -/

/-- The place of the file of a record, if there is no such file. -/
def sourceOf (w : Written) : Path :=
  (Path.ofNative w.file).absolutize (Path.ofNative w.directory)

/-- The record that an entry is read as. -/
def plainOf (w : Written) : PlainRecord :=
  ⟨Flags.withoutUnit w.arguments (sourceOf w).baseName, sourceOf w, Path.ofNative w.directory⟩

/-- The file of a record is named, and is not looked up or is not there. -/
structure IsMissing (fs : FileSystem) (w : Written) : Prop where
  named : w.file ≠ ""
  missing : ∀ p, (Path.ofNative w.file).isAbsolute = false →
    fs.canonical ((Path.ofNative w.directory).join (Path.ofNative w.file)) ≠ .ok p

theorem ne_of_isAbsolute_ofNative {text : String} (h : (Path.ofNative text).isAbsolute = true) :
    text ≠ "" := by
  rintro rfl
  exact absurd h (by decide)

/-- An absolute file is not looked up. -/
theorem IsMissing.of_isAbsolute (fs : FileSystem) {w : Written}
    (h : (Path.ofNative w.file).isAbsolute = true) : IsMissing fs w where
  named := ne_of_isAbsolute_ofNative h
  missing := by
    intro p hrelative
    rw [h] at hrelative
    cases hrelative

theorem sourceFileOf_eq {fs : FileSystem} {w : Written} (h : IsMissing fs w) :
    sourceFileOf fs (Path.ofNative w.directory) (Path.ofNative w.file) = sourceOf w :=
  sourceFileOf_eq_absolutize h.missing

theorem tokensOf_draft (w : Written) : tokensOf w.draft = w.arguments := by
  have hcommand : CommandLine.split "" = [] := by decide
  have hlist : w.draft.argumentList = w.arguments := rfl
  unfold tokensOf
  rw [hlist]
  split
  · rename_i hnone
    rw [hnone]
    exact hcommand
  · rfl

theorem recordOf_draft {fs : FileSystem} {w : Written} (h : IsMissing fs w) :
    recordOf fs w.draft = some (plainOf w) := by
  have hfile : w.draft.fileText = w.file := rfl
  have hdirectory : w.draft.directoryText = w.directory := rfl
  unfold recordOf
  simp only [hfile, if_neg h.named, hdirectory, sourceFileOf_eq h, tokensOf_draft]
  rfl

/-- The records of a written database, if none of their files is there. -/
theorem plain_writtenText {fs : FileSystem} (source : Path) {records : List Written}
    (h : ∀ w ∈ records, IsMissing fs w) :
    (readRecords fs source (ofText (writtenText records))).plain = records.map plainOf := by
  rw [readRecords_plain, drafts_writtenText, List.filterMap_map, ← List.filterMap_eq_map]
  exact List.filterMap_congr fun w hw => recordOf_draft (h w hw)

/-- A database that is written is read back record by record, whatever its
strings hold, and nothing is told of it. -/
theorem written_read_back (fs : FileSystem) (source : Path) (records : List Written)
    (h : ∀ w ∈ records, IsMissing fs w) :
    (readRecords fs source (ofText (writtenText records))).plain = records.map plainOf ∧
      (readRecords fs source (ofText (writtenText records))).diagnostics = [] := by
  constructor
  · exact plain_writtenText source h
  · apply readRecords_diagnostics_eq_nil
    rw [readings_writtenText]
    intro reading hreading
    obtain ⟨w, he, rfl⟩ := List.mem_map.mp hreading
    exact ⟨w.draft, rfl, (h w he).named⟩

/-- Records with braces, quotes, backslashes and control characters in them. -/
def hardRecords : List Written :=
  [⟨"work\\\x7b", "src\\..\\\x7d\".c", ["cc", "-DX=\"\x7d\x7b\"\n\x01", "-c", "\x7d\".c"]⟩,
    ⟨"", "/π/\x7b/./b.c", []⟩]

theorem written_read_back_hardRecords :
    (∀ w ∈ hardRecords, IsMissing .empty w) ∧
      (readRecords .empty ⟨"db"⟩ (ofText (writtenText hardRecords))).plain =
        [⟨["cc", "-DX=\"\x7d\x7b\"\n\x01", "-c"], ⟨"work/\x7b/\x7d\".c"⟩, ⟨"work/\x7b"⟩⟩,
          ⟨[], ⟨"/π/\x7b/b.c"⟩, ⟨""⟩⟩] ∧
      (readRecords .empty ⟨"db"⟩ (ofText (writtenText hardRecords))).diagnostics = [] := by
  have hlookup : FileSystem.empty.canonical ⟨"work/\x7b/src/../\x7d\".c"⟩ = .error .notFound := by
    decide +kernel
  have hmissing : ∀ w ∈ hardRecords, IsMissing .empty w := by
    simp only [hardRecords, List.forall_mem_cons, List.not_mem_nil, false_implies, implies_true,
      and_true]
    constructor
    · refine ⟨by decide, fun p _ hp => ?_⟩
      cases hlookup.symm.trans hp
    · refine ⟨by decide, fun p hrelative => ?_⟩
      exact absurd hrelative (by decide)
  obtain ⟨hplain, hdiagnostics⟩ := written_read_back .empty ⟨"db"⟩ hardRecords hmissing
  exact ⟨hmissing, hplain.trans (by decide +kernel), hdiagnostics⟩

end CompileCommands.Database
