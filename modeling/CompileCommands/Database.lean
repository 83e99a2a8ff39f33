-- A compilation database: its records, sorted by their flags, and the extra
-- files beside it.
import CompileCommands.CommandLine
import CompileCommands.Database.Extraction
import CompileCommands.Database.Extras
import CompileCommands.Diagnostic
import CompileCommands.Flags.Table
import CompileCommands.Flags.UnitFilter
import CompileCommands.Path.Normal

namespace CompileCommands

/-! ## Records -/

/-- How one file is compiled. The flags are keys of a table. -/
structure CompileRecord where
  flags : List FlagKey
  sourceFile : Path
  directory : Path
  deriving DecidableEq, Repr

namespace Database

/-- The path without links, or the normalized path if there is no such file. -/
def canonicalOrNormal (fs : FileSystem) (p : Path) : Path :=
  match fs.canonical p with
  | .ok canonical => canonical
  | .error _ => p.normalize

/-- The place of the file of a record. Only a relative file is looked up. -/
def sourceFileOf (fs : FileSystem) (directory file : Path) : Path :=
  if file.isAbsolute then file.normalize else canonicalOrNormal fs (directory.join file)

/-- The place that is looked up for the file of a draft, if there is one. -/
def lookupOf (draft : Draft) : Option Path :=
  let file := Path.ofNative draft.fileText
  if draft.fileText = "" ∨ file.isAbsolute then none
  else some ((Path.ofNative draft.directoryText).join file)

/-- The tokens of a record: its arguments, or the pieces of its command if it
has no arguments. -/
def tokensOf (draft : Draft) : List String :=
  match draft.argumentList with
  | [] => CommandLine.split draft.commandText
  | arguments => arguments

/-- A record with its flags written out. -/
structure PlainRecord where
  flags : List String
  sourceFile : Path
  directory : Path
  deriving DecidableEq, Repr

/-- The record of a draft that names a file. Its flags do not name its own
files. -/
def recordOf (fs : FileSystem) (draft : Draft) : Option PlainRecord :=
  if draft.fileText = "" then none
  else
    let directory := Path.ofNative draft.directoryText
    let file := sourceFileOf fs directory (Path.ofNative draft.fileText)
    some ⟨Flags.withoutUnit (tokensOf draft) file.baseName, file, directory⟩

/-! ## Reading all records -/

/-- The record that names no file, told of in a diagnostic. -/
def withoutFileNote (source : Path) (first : Nat) : Diagnostic :=
  (Diagnostic.plain .note .recordWithoutFile
    ("skipped the record at byte " ++ toString first ++ ": it has no `file`")).about source

/-- The text that is no record, told of in a diagnostic. -/
def malformedNote (source : Path) (first : Nat) (message : String) : Diagnostic :=
  ((Diagnostic.plain .note .malformedRecord
    ("skipped a malformed record at byte " ++ toString first)).about source).withNote message

/-- The record of a finding, or what is to be told of it. -/
def Finding.outcome (fs : FileSystem) (source : Path) : Finding → Except Diagnostic PlainRecord
  | .malformed first message => .error (malformedNote source first message)
  | .record first draft =>
    match recordOf fs draft with
    | some plain => .ok plain
    | none => .error (withoutFileNote source first)

/-- The places that are looked up for the records of a text. -/
def lookups (bytes : List UInt8) : List Path :=
  (extract bytes).filterMap (fun
    | .record _ draft => lookupOf draft
    | .malformed _ _ => none)

/-- The records of a text in its order, the table of their flags, and what is
to be told of the rest of the text. -/
structure Records where
  records : List CompileRecord
  table : FlagTable
  diagnostics : List Diagnostic

/-- The records with their flags put into a table, from left to right. -/
def internRecords (table : FlagTable) : List PlainRecord → List CompileRecord × FlagTable
  | [] => ([], table)
  | r :: rest =>
    let (keys, table) := table.internAll r.flags
    let (records, table) := internRecords table rest
    (⟨keys, r.sourceFile, r.directory⟩ :: records, table)

/-- The records of a text. The source is what the diagnostics are about. -/
def readRecords (fs : FileSystem) (source : Path) (bytes : List UInt8) : Records :=
  let outcomes := (extract bytes).map (Finding.outcome fs source)
  let (records, table) := internRecords .empty (outcomes.filterMap (·.toOption))
  ⟨records, table, outcomes.filterMap (fun
    | .error d => some d
    | .ok _ => none)⟩

/-! ## Contents -/

/-- What a database and its list of extra files hold. The records are sorted
by their flags. -/
structure Contents where
  records : List CompileRecord
  extraFiles : List String
  extrasSource : Path
  table : FlagTable

namespace Contents

/-- Contents without records and extra files. -/
def empty (extrasSource : Path) : Contents := ⟨[], [], extrasSource, .empty⟩

/-- The flags of a record. -/
def flagsOf (c : Contents) (r : CompileRecord) : List String := c.table.flagsOf r.flags

/-- The first record of a file. -/
def recordFor? (c : Contents) (file : Path) : Option CompileRecord :=
  c.records.find? (·.sourceFile.same file)

/-- A short description: the sizes, the extra files and where they are listed. -/
def summary (c : Contents) : String :=
  "DatabaseContents \x7b entries: " ++ toString c.records.length ++
    ", extra_files: [" ++ ", ".intercalate (c.extraFiles.map Text.quoted) ++
    "], extra_files_source: " ++ Text.quoted c.extrasSource.text ++
    ", distinct_flags: " ++ toString c.table.size ++ " \x7d"

end Contents

/-- The records in the order of their flags. Records with the same flags stay
in the order in which they were. -/
def sortRecords (table : FlagTable) (records : List CompileRecord) : List CompileRecord :=
  records.mergeSort (fun a b => table.inOrder a.flags b.flags)

/-- The contents of a database whose bytes are known. -/
def parse (fs : FileSystem) (database : Path) (suffix : String) (bytes : List UInt8) :
    Contents × List Diagnostic :=
  let read := readRecords fs database bytes
  let extras := extrasPath database suffix
  (⟨sortRecords read.table read.records, readExtras fs extras, extras, read.table⟩,
    read.diagnostics)

/-- The database that cannot be read, told of in a diagnostic. -/
def unreadableNote (database : Path) (e : IoError) : Diagnostic :=
  ((Diagnostic.plain .warning .databaseUnreadable
    ("cannot read the compilation database: " ++ e.message)).about database).withNote
    "the project is shown without build information"

/-- The contents of a database. One that cannot be read has no records. -/
def load (fs : FileSystem) (database : Path) (suffix : String) : Contents × List Diagnostic :=
  match fs.read database with
  | .ok bytes => parse fs database suffix bytes
  | .error e =>
    let (contents, diagnostics) := parse fs database suffix []
    (contents, unreadableNote database e :: diagnostics)

end Database

end CompileCommands
