-- Reports for readers: the tree of a project, its parts, and a line at the end.
import CompileCommands.Project

namespace CompileCommands.Report

/-! ## The tree -/

mutual

/-- The lines of a node under its name, so many steps in. A file that is not
enabled is marked. -/
def nodeLines (depth : Nat) (name : String) : Node → List String
  | .file file =>
    [String.ofList (List.replicate (2 * depth) ' ') ++ name ++
      (if file.enabled then "" else " (unused)")]
  | .folder _ _ children =>
    (String.ofList (List.replicate (2 * depth) ' ') ++ name ++ "/") ::
      childLines (depth + 1) children

/-- The lines of some children, so many steps in. -/
def childLines (depth : Nat) : List (String × Node) → List String
  | [] => []
  | (name, node) :: rest => nodeLines depth name node ++ childLines depth rest

end

/-- Each line with a newline at its end. -/
def ofLines (lines : List String) : String := String.join (lines.map (· ++ "\n"))

/-- The tree, one node a line. -/
def ofTree (top : Folder) : String :=
  ofLines ((top.displayName ++ "/") :: childLines 1 top.children)

/-! ## The parts -/

/-- The lines of the flags of a part for a language. -/
def flagsLines (language : Language) : Option CompilerFlags → List String
  | none => []
  | some flags =>
    let start := "  " ++ language.title
    (start ++ " toolchain: " ++ flags.toolchain.getD "<none>") ::
      (if flags.flags.isEmpty then [] else [start ++ " flags: " ++ " ".intercalate flags.flags])

/-- The lines of a part with a number. -/
def partLines (index : Nat) (part : BuildPart) : List String :=
  ("part " ++ toString index ++ ": " ++ part.displayName ++ " (" ++
      toString part.files.size ++ " file(s))") ::
    flagsLines .c part.cFlags ++ flagsLines .cxx part.cxxFlags ++
    part.headerPaths.map (fun h => "  include: " ++ h.path.text) ++
    part.macros.map (fun m => "  macro: " ++ m.directive)

/-- The lines of some parts, numbered from `index` on. -/
def partsLines (index : Nat) : List BuildPart → List String
  | [] => []
  | part :: rest => partLines index part ++ partsLines (index + 1) rest

/-- The parts, one paragraph each, and the sysroot. -/
def ofBuild (build : BuildDescription) : String :=
  ofLines (partsLines 0 build.parts ++
    build.sysroot.toList.map (fun sysroot => "sysroot: " ++ sysroot.text))

/-! ## What happened -/

/-- The line that says which database is read. -/
def opening (database : Path) : String := ofLines ["   Ingesting " ++ database.text]

/-- The line that counts what was found. -/
def closing (project : Project) : String :=
  let counts := Diagnostic.counts project.diagnostics
  ofLines ["   Result: " ++ toString project.build.parts.length ++ " part(s), " ++
    toString project.build.fileCount ++ " file(s), " ++ toString counts.errors ++ " error(s), " ++
    toString counts.warnings ++ " warning(s)"]

end CompileCommands.Report
