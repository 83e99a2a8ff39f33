-- The parts of a database. Its records are sorted by their flags, so those
-- with the same flags stand side by side, and each such group is one part.
-- The flags of a group are read once, from its first record.
import CompileCommands.BuildPart
import CompileCommands.Database
import CompileCommands.Toolchain.Resolution

namespace CompileCommands

/-! ## Toolchains -/

/-- The toolchain of each language, once one was found. -/
structure ChosenToolchains where
  c : Option Toolchain
  cxx : Option Toolchain
  deriving DecidableEq, Repr

namespace ChosenToolchains

/-- No toolchain was found yet. -/
def empty : ChosenToolchains := ⟨none, none⟩

/-- The toolchain of a language. -/
def get? (t : ChosenToolchains) : Language → Option Toolchain
  | .c => t.c
  | .cxx => t.cxx

/-- The same, with what was found for a language. -/
def set (t : ChosenToolchains) (found : Option Toolchain) : Language → ChosenToolchains
  | .c => { t with c := found }
  | .cxx => { t with cxx := found }

end ChosenToolchains

/-! ## Groups -/

/-- A first record and the records after it with the same flags. -/
abbrev RecordGroup := CompileRecord × List CompileRecord

/-- The groups of records with the same flags, where such records stand side
by side. -/
def groupRecords : List CompileRecord → List RecordGroup
  | [] => []
  | r :: rest =>
    match groupRecords rest with
    | [] => [(r, [])]
    | (first, more) :: groups =>
      if r.flags = first.flags then (r, first :: more) :: groups
      else (r, []) :: (first, more) :: groups

/-- The files of a group. -/
def filesOfGroup (group : RecordGroup) : PathSet :=
  group.2.foldl (fun files r => files.insert r.sourceFile) (PathSet.empty.insert group.1.sourceFile)

/-! ## Parts -/

namespace BuildPart

/-- A part with the flags of one language. -/
def ofGroup (database : Path) (group : RecordGroup) (analysis : Flags.Analysis)
    (flags : CompilerFlags) : BuildPart where
  location := database
  target := group.1.directory
  displayName := group.1.sourceFile.displayName
  files := filesOfGroup group
  headerPaths := analysis.headerPaths
  macros := analysis.macros
  cFlags := if analysis.kind.language = .c then some flags else none
  cxxFlags := if analysis.kind.language = .c then none else some flags

/-- The part of the extra files. They are seen from the directory of the
database, and nothing is known of how they are compiled. -/
def ofExtras (database : Path) (contents : Database.Contents) : BuildPart where
  location := database
  target := ⟨""⟩
  displayName := contents.extrasSource.displayName
  files := PathSet.ofList
    (contents.extraFiles.map (fun extra => Path.absolutize ⟨extra⟩ (database.parent?.getD ⟨""⟩)))
  headerPaths := []
  macros := []
  cFlags := none
  cxxFlags := none

end BuildPart

/-! ## Grouping -/

/-- What all parts of a project share. -/
structure BuildContext where
  database : Path
  registry : Registry
  host : Host
  deriving DecidableEq, Repr

/-- What the environment of a build gives: the toolchains that it takes where
none is found, and a sysroot. -/
structure BuildEnvironment extends Environment where
  sysroot : Option Path
  deriving DecidableEq, Repr

/-- The environment that a registry names. -/
def Registry.buildEnvironment (r : Registry) : BuildEnvironment := ⟨r.environment, r.sysroot⟩

/-- The parts that were made so far, last one first, and what was found on
the way. -/
structure Grouping where
  parts : List BuildPart
  toolchains : ChosenToolchains
  sysroot : Option Path
  diagnostics : List Diagnostic
  deriving DecidableEq, Repr

namespace Grouping

/-- No part is made yet. The sysroot of the environment goes first. -/
def start (env : BuildEnvironment) : Grouping := ⟨[], .empty, env.sysroot, []⟩

/-- The toolchain for a part. It is only looked for if none was found for the
language before. -/
def choose (ctx : BuildContext) (env : Environment) (g : Grouping) (language : Language)
    (compiler : Option String) : Grouping :=
  match g.toolchains.get? language with
  | some _ => g
  | none =>
    let found := ctx.registry.resolveIn env ctx.host compiler language
    { g with
      toolchains := g.toolchains.set found.toolchain language
      diagnostics := g.diagnostics ++ found.diagnostics }

/-- The flags of a part for its toolchain. -/
def flagsFor (toolchain : Option Toolchain) (compiler : Option String) (flags : List String) :
    List String :=
  if toolchain.any (·.needsDriverMode compiler) then driverModeFlag :: flags else flags

/-- One group more. -/
def step (ctx : BuildContext) (env : Environment) (contents : Database.Contents) (g : Grouping)
    (group : RecordGroup) : Grouping :=
  let record := group.1
  let tokens := contents.flagsOf record
  let analysis := Flags.analyze ⟨record.sourceFile, record.directory, ctx.host⟩ tokens
  let language := analysis.kind.language
  let g := choose ctx env g language tokens.head?
  let toolchain := g.toolchains.get? language
  let flags : CompilerFlags :=
    ⟨toolchain.map (·.id), flagsFor toolchain tokens.head? analysis.flags, record.directory⟩
  { g with
    parts := BuildPart.ofGroup ctx.database group analysis flags :: g.parts
    sysroot := g.sysroot.or analysis.sysroot }

/-- What was made and found, with the part of the extra files at the end if
there are any. -/
def description (ctx : BuildContext) (contents : Database.Contents) (g : Grouping) :
    BuildDescription where
  parts := g.parts.reverse ++
    (if contents.extraFiles.isEmpty then [] else [BuildPart.ofExtras ctx.database contents])
  cToolchain := g.toolchains.c.map (·.id)
  cxxToolchain := g.toolchains.cxx.map (·.id)
  sysroot := g.sysroot

end Grouping

namespace BuildDescription

/-- The parts of a database in some environment, and what is to be told of its
toolchains. -/
def ofContentsIn (ctx : BuildContext) (env : BuildEnvironment) (contents : Database.Contents) :
    BuildDescription × List Diagnostic :=
  let g := (groupRecords contents.records).foldl
    (Grouping.step ctx env.toEnvironment contents) (.start env)
  (g.description ctx contents, g.diagnostics)

end BuildDescription

end CompileCommands
