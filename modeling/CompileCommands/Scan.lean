-- Scans. A scan goes through a directory, and lists the files that are worth
-- showing beside those that the database names.
import CompileCommands.Diagnostic
import CompileCommands.FileType
import CompileCommands.Scan.Filter

namespace CompileCommands

/-! ## Walking a directory -/

/-- Named lists in the order of their names. -/
def sortByName (named : List (String × α)) : List (String × α) :=
  named.mergeSort (fun a b => decide (a.1 ≤ b.1))

/-- What a walk through a directory comes to. -/
inductive Visit
  | file (place : Path)
  /-- The entries of a directory cannot be listed. -/
  | closed (place : Path) (fault : IoError)
  deriving DecidableEq, Repr

namespace Visit

/-- The place of a file. -/
def file? : Visit → Option Path
  | .file place => some place
  | .closed _ _ => none

/-- What is told of a directory that cannot be listed. -/
def note? : Visit → Option Diagnostic
  | .file _ => none
  | .closed place fault =>
    some ((Diagnostic.plain .note .scanPlaceClosed
      ("IO error for operation on " ++ place.text ++ ": " ++ fault.message)).about place)

end Visit

mutual

/-- What a walk comes to at and below a place, in the order of the names at
each level. A link is no file, and is not followed. A directory whose path is
too long is not listed. -/
def Entry.visits (excluded : String → Bool) (place : Path) : Entry → List Visit
  | .file _ => [.file place]
  | .link _ => []
  | .directory entries =>
    if FileSystem.maxPath < place.text.utf8ByteSize then [.closed place .nameTooLong]
    else (sortByName (Entry.visitsOfEach excluded place entries)).flatMap (·.2)

/-- What a walk comes to at each entry of a directory, under its name. A
directory with an excluded name is not entered. -/
def Entry.visitsOfEach (excluded : String → Bool) (place : Path) :
    List (String × Entry) → List (String × List Visit)
  | [] => []
  | (name, e) :: rest =>
    let visits := match e with
      | .directory _ => if excluded name then [] else e.visits excluded (place.child name)
      | _ => e.visits excluded (place.child name)
    (name, visits) :: Entry.visitsOfEach excluded place rest

end

/-! ## Scanning -/

/-- A file that a scan kept. -/
structure ScannedFile where
  path : Path
  fileType : FileType
  deriving DecidableEq, Repr

namespace ScannedFile

/-- A file with the type that its name tells. -/
def ofPath (path : Path) : ScannedFile := ⟨path, FileType.ofScanned path⟩

end ScannedFile

/-- Why a root cannot be scanned. -/
inductive RootFault
  | missing
  | notDirectory
  deriving DecidableEq, Repr

namespace RootFault

/-- The fault of a root that is told to a user. -/
def message (root : Path) : RootFault → String
  | .missing => "scan root " ++ root.text ++ " does not exist"
  | .notDirectory => "scan root " ++ root.text ++ " is not a directory"

/-- The fault of a root as a warning. -/
def warning (root : Path) (fault : RootFault) : Diagnostic :=
  ((Diagnostic.plain .warning .scanRootMissing (fault.message root)).about root).withNote
    "only files named by the database are shown"

end RootFault

/-- What comes of a scan. A scan that was cancelled gives nothing back, and
forgets what it knew of types. -/
inductive ScanOutcome
  | finished (files : List ScannedFile) (notes : List Diagnostic) (cache : MimeCache)
  | refused (fault : RootFault) (cache : MimeCache)
  | cancelled

namespace ScanOutcome

/-- The files that a scan kept. -/
def files : ScanOutcome → List ScannedFile
  | .finished files _ _ => files
  | _ => []

/-- What is known of types after a scan. -/
def cache? : ScanOutcome → Option MimeCache
  | .finished _ _ cache => some cache
  | .refused _ cache => some cache
  | .cancelled => none

/-- What a scan of a root has to tell. -/
def diagnostics (root : Path) : ScanOutcome → List Diagnostic
  | .finished _ notes _ => notes
  | .refused fault _ => [fault.warning root]
  | .cancelled => []

end ScanOutcome

namespace Scan

/-- The message of a scan that was cancelled. -/
def cancelledMessage : String := "scan cancelled"

/-- The files that the filter does not leave out. -/
def keep (fs : FileSystem) (filter : ScanFilter) (cache : MimeCache) :
    List Path → List ScannedFile × MimeCache
  | [] => ([], cache)
  | file :: rest =>
    let (ignored, cache) := filter.ignores fs file cache
    let (kept, cache) := keep fs filter cache rest
    (if ignored then kept else .ofPath file :: kept, cache)

/-- Scans a root. The root itself may be a link or bear an excluded name. -/
def run (fs : FileSystem) (root : Path) (filter : ScanFilter) (cache : MimeCache)
    (cancelled : Bool) : ScanOutcome :=
  match fs.entry root with
  | .ok (.directory entries) =>
    if cancelled then .cancelled
    else
      let visits := (Entry.directory entries).visits filter.excludes root
      let (files, cache) := keep fs filter cache (visits.filterMap Visit.file?)
      .finished files (visits.filterMap Visit.note?) cache
  | .ok _ => .refused .notDirectory cache
  | .error _ => .refused .missing cache

end Scan

end CompileCommands
