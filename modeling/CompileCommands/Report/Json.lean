-- Reports for programs: a project as a JSON value.
import CompileCommands.Json.Value
import CompileCommands.Project

namespace CompileCommands.Report

open Json (Value)

/-- A path as a value. -/
def pathValue (p : Path) : Value := .text p.text

/-! ## The tree -/

/-- The fields of a file. -/
def fileFields (file : FileNode) : List (String × Value) :=
  [("path", pathValue file.path), ("file_type", .text file.fileType.name),
   ("enabled", .bool file.enabled)]

mutual

/-- A node as a value. -/
def nodeValue : Node → Value
  | .file file => .object (("kind", .text "file") :: fileFields file)
  | .folder path displayName children =>
    .object [("kind", .text "folder"), ("path", pathValue path),
      ("display_name", .text displayName), ("children", .object (childFields children))]

/-- Some children as fields. -/
def childFields : List (String × Node) → List (String × Value)
  | [] => []
  | (name, node) :: rest => (name, nodeValue node) :: childFields rest

end

/-- A tree as a value. -/
def treeValue (top : Folder) : Value :=
  .object [("path", pathValue top.path), ("display_name", .text top.displayName),
    ("children", .object (childFields top.children))]

/-! ## The parts -/

/-- The name of a kind of directory of headers. -/
def headerKindName : HeaderKind → String
  | .user => "user"
  | .system => "system"
  | .framework => "framework"

/-- A directory of headers as a value. -/
def headerPathValue (h : HeaderPath) : Value :=
  .object [("path", pathValue h.path), ("kind", .text (headerKindName h.kind))]

/-- The name of what happens to a macro. -/
def macroKindName : MacroKind → String
  | .define => "define"
  | .undefine => "undefine"

/-- A macro as a value. -/
def macroValue (m : Macro) : Value :=
  .object [("key", .text m.name), ("value", .text m.value), ("kind", .text (macroKindName m.kind))]

/-- The flags of a part as a value. -/
def compilerFlagsValue (flags : CompilerFlags) : Value :=
  .object [("toolchain", .ofOption .text flags.toolchain), ("flags", .texts flags.flags),
    ("working_directory", pathValue flags.workingDirectory)]

/-- A part as a value. -/
def partValue (part : BuildPart) : Value :=
  .object [("location_hint", pathValue part.location), ("target_hint", pathValue part.target),
    ("display_name", .text part.displayName),
    ("files", .array (part.files.toList.map pathValue)),
    ("header_paths", .array (part.headerPaths.map headerPathValue)),
    ("macros", .array (part.macros.map macroValue)),
    ("c_flags", .ofOption compilerFlagsValue part.cFlags),
    ("cxx_flags", .ofOption compilerFlagsValue part.cxxFlags)]

/-- The parts of a project as a value. -/
def buildValue (build : BuildDescription) : Value :=
  .object [("parts", .array (build.parts.map partValue)),
    ("c_toolchain", .ofOption .text build.cToolchain),
    ("cxx_toolchain", .ofOption .text build.cxxToolchain),
    ("sysroot", .ofOption pathValue build.sysroot)]

/-! ## What happened -/

/-- The name of a stage. -/
def categoryName : Category → String
  | .parse => "Parse"
  | .toolchain => "Toolchain"
  | .scan => "Scan"
  | .internal => "Internal"

/-- A code as a value. -/
def codeValue (code : Code) : Value :=
  .object [("category", .text (categoryName code.category)), ("number", .number code.number)]

/-- A diagnostic as a value. -/
def diagnosticValue (d : Diagnostic) : Value :=
  .object [("severity", .text d.severity.name), ("code", codeValue d.code),
    ("message", .text d.message), ("subject", .ofOption pathValue d.subject),
    ("notes", .texts d.notes), ("help", .texts d.help)]

/-- A fingerprint as a value. -/
def fingerprintValue (f : Fingerprint) : Value := .array (f.bytes.map .number)

/-! ## The project -/

/-- A project as a value. -/
def projectValue (project : Project) : Value :=
  .object [("root", treeValue project.tree), ("build", buildValue project.build),
    ("hash", .ofOption fingerprintValue project.fingerprint),
    ("diagnostics", .array (project.diagnostics.map diagnosticValue)),
    ("generation", .number project.generation)]

end CompileCommands.Report
