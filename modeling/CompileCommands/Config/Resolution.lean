-- The resolution of a configuration: its paths are seen from the directory of
-- its file, and its toolchains become a registry.
import CompileCommands.Config
import CompileCommands.Path.Normal

namespace CompileCommands

/-- A configuration whose paths are resolved. -/
structure ResolvedConfig where
  database : Path
  root : Path
  extrasSuffix : Option String
  skipUnchanged : Bool
  scan : ScanSettings
  host : Host
  registry : Registry
  deriving DecidableEq, Repr

namespace ResolvedConfig

/-- The settings of a project with this configuration. -/
def settings (r : ResolvedConfig) : Settings where
  database := r.database
  root := r.root
  extrasSuffix := r.extrasSuffix.getD Database.defaultExtrasSuffix
  skipUnchanged := r.skipUnchanged
  scan := r.scan

end ResolvedConfig

namespace Config

/-- The host of a configuration that names none. -/
def defaultHost : Host := .unix

/-- The toolchains of a configuration, and the defaults of its environment. -/
def registry (c : Config) (base : Path) : Registry where
  toolchains := c.toolchains
  defaultC := c.environment.defaultC
  defaultCxx := c.environment.defaultCxx
  sysroot := c.environment.sysroot.map (fun sysroot => Path.absolutize ⟨sysroot⟩ base)

/-- The root that a configuration names, or the directory of its database. -/
def rootFor (c : Config) (base database : Path) : Except ConfigError Path :=
  match c.project.root, database.parent? with
  | some root, _ => .ok (Path.absolutize ⟨root⟩ base)
  | none, some parent => .ok parent
  | none, none => .error (.withoutParent database)

/-- Resolves a configuration against a directory. -/
def resolve (c : Config) (base : Path) : Except ConfigError ResolvedConfig := do
  let database := Path.absolutize ⟨c.project.database⟩ base
  let root ← c.rootFor base database
  return {
    database := database
    root := root
    extrasSuffix := c.project.extrasSuffix
    skipUnchanged := c.project.skipUnchanged
    scan := c.scan
    host := c.environment.host.getD defaultHost
    registry := c.registry base }

end Config

end CompileCommands
