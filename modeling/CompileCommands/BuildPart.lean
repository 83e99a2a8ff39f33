-- Build parts. The files that are compiled in the same way make up one part.
import CompileCommands.Flags.Analysis
import CompileCommands.Path.Set

namespace CompileCommands

/-- How the files of a part are compiled. -/
structure CompilerFlags where
  /-- The id of the toolchain, if there is one. -/
  toolchain : Option String
  flags : List String
  workingDirectory : Path
  deriving DecidableEq, Repr

/-- The files that are compiled in the same way. -/
structure BuildPart where
  /-- The database that the part comes from. -/
  location : Path
  /-- The directory in which the first file is compiled. -/
  target : Path
  displayName : String
  files : PathSet
  headerPaths : List HeaderPath
  macros : List Macro
  /-- The flags of a part in C. -/
  cFlags : Option CompilerFlags
  /-- The flags of a part in any other language. -/
  cxxFlags : Option CompilerFlags
  deriving DecidableEq, Repr

/-- The parts of a project, and the toolchains that were chosen for it. -/
structure BuildDescription where
  parts : List BuildPart
  cToolchain : Option String
  cxxToolchain : Option String
  sysroot : Option Path
  deriving DecidableEq, Repr

namespace BuildDescription

/-- The number of files in all parts. -/
def fileCount (b : BuildDescription) : Nat := b.parts.foldl (fun n part => n + part.files.size) 0

end BuildDescription

end CompileCommands
