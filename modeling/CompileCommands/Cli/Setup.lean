-- The settings of a run. They come from a configuration, which is named or
-- found above the working directory, and the options of the command line
-- count more than it.
import CompileCommands.Cli.Arguments
import CompileCommands.Config.Resolution
import CompileCommands.Project

namespace CompileCommands.Cli

/-- Why a run cannot be set up. -/
inductive SetupError
  | config (e : ConfigError)
  | settings (e : SettingsError)
  /-- No configuration is found from a directory upwards, and no database is
  named. -/
  | nothingNamed (directory : Path)
  deriving DecidableEq, Repr

/-- The message of a refusal. -/
def SetupError.message : SetupError → String
  | .config e => e.message
  | .settings e => e.message
  | .nothingNamed directory =>
    "no " ++ Config.fileName ++ " found in " ++ directory.text ++
      " or any parent directory; pass --database"

/-! ## Finding a configuration -/

/-- The working directory. -/
def workingDirectory (fs : FileSystem) : Path := FileSystem.pathOf (fs.workingDirectory.getD [])

/-- The configurations that may stand in a directory or above it, the nearest
first. The innermost name of the directory comes first. -/
def configsAbove : List String → List Path
  | [] => [(FileSystem.pathOf []).child Config.fileName]
  | name :: above =>
    (FileSystem.pathOf (name :: above).reverse).child Config.fileName :: configsAbove above

/-- The configurations that a run looks for, in this order. One that is named
is the only one, and none is looked for if a database is named. -/
def configPlaces (fs : FileSystem) (o : Options) : List Path :=
  match o.config, o.database with
  | some file, _ => [file.absolutize (workingDirectory fs)]
  | none, some _ => []
  | none, none => configsAbove (fs.workingDirectory.getD []).reverse

/-- The configuration of a run. One that is named need not be there. -/
def configFile? (fs : FileSystem) (o : Options) : Option Path :=
  if o.config.isSome then (configPlaces fs o).head? else (configPlaces fs o).find? fs.isFile

/-! ## Putting it together -/

/-- The workspace that a configuration describes. -/
def workspaceOfConfig (fs : FileSystem) (file : Path) : Except SetupError Workspace := do
  let config ← (Config.load fs file).mapError .config
  let resolved ← (config.resolve (file.parent?.getD (workingDirectory fs))).mapError .config
  return ⟨resolved.settings, resolved.registry, resolved.host⟩

/-- The workspace of a database without a configuration. It has no toolchains. -/
def workspaceOfDatabase (fs : FileSystem) (database : Path) : Workspace :=
  ⟨.ofDatabase (database.absolutize (workingDirectory fs)), .empty, Config.defaultHost⟩

/-- The settings with what the options say instead. -/
def withOptions (here : Path) (o : Options) (s : Settings) : Settings :=
  { s with
    database := (o.database.map (·.absolutize here)).getD s.database
    root := (o.root.map (·.absolutize here)).getD s.root
    scan := { s.scan with enabled := s.scan.enabled && !o.noScan } }

/-- The workspace of a run, whose database need not be there. -/
def workspaceOf (fs : FileSystem) (o : Options) : Except SetupError Workspace := do
  let w ← match configFile? fs o, o.database with
    | some file, _ => workspaceOfConfig fs file
    | none, some database => pure (workspaceOfDatabase fs database)
    | none, none => throw (.nothingNamed (workingDirectory fs))
  return { w with settings := withOptions (workingDirectory fs) o w.settings }

/-- The workspace of a run. -/
def setup (fs : FileSystem) (o : Options) : Except SetupError Workspace := do
  let w ← workspaceOf fs o
  (w.settings.check fs).mapError .settings
  return w

end CompileCommands.Cli
