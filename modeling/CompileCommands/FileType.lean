-- What a file is to a project. A file that is only found on the disk is
-- judged by its name; a file that the database names is compiled.
import CompileCommands.SourceKind

namespace CompileCommands

/-- What a file is to a project. -/
inductive FileType
  | header
  | source
  /-- A description of the build. -/
  | project
  | unknown
  deriving DecidableEq, Repr

namespace FileType

/-- The name of a type in files. -/
def name : FileType → String
  | .header => "header"
  | .source => "source"
  | .project => "project"
  | .unknown => "unknown"

/-- The names of files that describe a build. -/
def projectNames : List String :=
  ["CMakeLists.txt", "Makefile", "GNUmakefile", "meson.build", "BUILD", "BUILD.bazel",
   "compile_commands.json"]

/-- The extensions of files that describe a build. Their case counts. -/
def projectExtensions : List String := ["cmake", "pro", "pri", "qbs", "gn", "gni", "mk"]

/-- A file that describes a build. -/
def isProject (file : Path) : Bool :=
  projectNames.contains (file.fileName?.getD "") ||
    projectExtensions.contains (file.extension?.getD "")

/-- The type of a file that was found on the disk. -/
def ofScanned (file : Path) : FileType :=
  let kind := SourceKind.ofPath file
  if kind.isHeader then .header
  else if kind.isSource then .source
  else if isProject file then .project
  else .unknown

/-- The type of a file that the database names. -/
def ofPartFile (file : Path) : FileType :=
  if (SourceKind.ofPath file).isHeader then .header else .source

end FileType

end CompileCommands
