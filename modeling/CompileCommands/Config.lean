-- Configurations. A file beside a project says where its database is, how its
-- root is scanned, and which toolchains there are.
import CompileCommands.Settings
import CompileCommands.Toml.Section
import CompileCommands.Toolchain
import CompileCommands.Utf8

namespace CompileCommands

/-! ## What a configuration says -/

/-- What is said of the project. -/
structure ProjectSection where
  database : String
  root : Option String
  extrasSuffix : Option String
  skipUnchanged : Bool
  deriving DecidableEq, Repr

/-- What is said of the build environment. -/
structure EnvironmentSection where
  host : Option Host
  defaultC : Option String
  defaultCxx : Option String
  sysroot : Option String
  deriving DecidableEq, Repr

/-- A configuration as it is written. -/
structure Config where
  project : ProjectSection
  scan : ScanSettings
  environment : EnvironmentSection
  toolchains : List Toolchain
  deriving DecidableEq, Repr

/-- Why a configuration is refused. -/
inductive ConfigError
  | unreadable (e : IoError)
  /-- The file is no text. -/
  | notText
  /-- The text does not say what a configuration says. -/
  | malformed
  | missingField (field : String)
  | duplicateToolchain (id : String)
  /-- A default names a toolchain that is not there. -/
  | unknownDefault (field id : String)
  | withoutParent (database : Path)
  deriving DecidableEq, Repr

/-- The message of a refusal. -/
def ConfigError.message : ConfigError → String
  | .unreadable e => "failed to read configuration: " ++ e.message
  | .notText => "failed to read configuration: stream did not contain valid UTF-8"
  | .malformed => "failed to parse configuration"
  | .missingField field => "missing required field: " ++ field
  | .duplicateToolchain id => "validation error: duplicate toolchain id '" ++ id ++ "'"
  | .unknownDefault field id =>
    "validation error: " ++ field ++ " names unknown toolchain '" ++ id ++ "'"
  | .withoutParent database =>
    "validation error: database '" ++ database.text ++ "' has no parent directory"

namespace Config

open Toml (Item Entries)

/-! ## Reading -/

/-- The hosts by name. -/
def hosts : List (String × Host) := [("unix", .unix), ("windows", .windows)]

/-- The languages by name. -/
def languages : List (String × Language) := [("c", .c), ("cxx", .cxx)]

/-- The families of compilers by name. -/
def families : List (String × Family) :=
  [Family.gcc, .mingw, .clang, .clangCl, .msvc].map (fun f => (f.name, f))

/-- Reads what is said of the project. Without a database, its name is empty. -/
def projectOf? (item : Item) : Option ProjectSection := do
  let entries ← item.section? ["database", "root", "extras_suffix", "skip_unchanged"]
  return {
    database := ← entries.orElse "database" Item.text? ""
    root := ← entries.optional "root" Item.text?
    extrasSuffix := ← entries.optional "extras_suffix" Item.text?
    skipUnchanged := ← entries.orElse "skip_unchanged" Item.boolean? true }

/-- Reads how the root is scanned. -/
def scanOf? (item : Item) : Option ScanSettings := do
  let entries ← item.section? ["enabled", "extra_binary_extensions", "exclude_dirs"]
  return {
    enabled := ← entries.orElse "enabled" Item.boolean? true
    extraBinaryExtensions := ← entries.orElse "extra_binary_extensions" Item.texts? []
    excludedDirectories :=
      ← entries.orElse "exclude_dirs" Item.texts? ScanSettings.defaultExcluded }

/-- Reads what is said of the build environment. -/
def environmentOf? (item : Item) : Option EnvironmentSection := do
  let entries ← item.section? ["host", "default_c", "default_cxx", "sysroot"]
  return {
    host := ← entries.optional "host" (Item.choice? hosts)
    defaultC := ← entries.optional "default_c" Item.text?
    defaultCxx := ← entries.optional "default_cxx" Item.text?
    sysroot := ← entries.optional "sysroot" Item.text? }

/-- Reads a toolchain. -/
def toolchainOf? (item : Item) : Option Toolchain := do
  let entries ← item.section? ["id", "family", "language", "compiler", "valid"]
  return {
    id := ← entries.required "id" Item.text?
    family := ← entries.required "family" (Item.choice? families)
    language := ← entries.required "language" (Item.choice? languages)
    compiler := ⟨← entries.required "compiler" Item.text?⟩
    valid := ← entries.orElse "valid" Item.boolean? true }

/-- Reads a list of toolchains. -/
def toolchainsOf? (item : Item) : Option (List Toolchain) := do
  (← item.list?).mapM toolchainOf?

/-- Reads a whole configuration. Keys that are not known do not count. -/
def ofEntries? (entries : Entries) : Option Config := do
  return {
    project := ← entries.required "project" projectOf?
    scan := ← entries.orElse "scan" scanOf? .standard
    environment := ← entries.orElse "environment" environmentOf? ⟨none, none, none, none⟩
    toolchains := ← entries.orElse "toolchains" toolchainsOf? [] }

/-! ## Checking -/

/-- Checks that each toolchain has an id, and an id of its own. The ids in
`seen` are taken. -/
def checkIds (seen : List String) : List Toolchain → Except ConfigError Unit
  | [] => .ok ()
  | t :: rest =>
    if t.id = "" then .error (.missingField "toolchains.id")
    else if t.id ∈ seen then .error (.duplicateToolchain t.id)
    else checkIds (t.id :: seen) rest

/-- Checks that a default, if there is one, names a toolchain. -/
def checkDefault (toolchains : List Toolchain) (field : String) :
    Option String → Except ConfigError Unit
  | none => .ok ()
  | some id =>
    if toolchains.any (·.id == id) then .ok () else .error (.unknownDefault field id)

/-- Checks a configuration: the database first, then the toolchains in their
order, then the defaults. -/
def check (c : Config) : Except ConfigError Unit := do
  if Text.trim c.project.database = "" then throw (.missingField "project.database")
  checkIds [] c.toolchains
  checkDefault c.toolchains "environment.default_c" c.environment.defaultC
  checkDefault c.toolchains "environment.default_cxx" c.environment.defaultCxx

/-! ## Loading -/

/-- The name of the file that holds a configuration. -/
def fileName : String := "cdb.toml"

/-- The configuration that a text stands for. -/
def ofText (text : String) : Except ConfigError Config :=
  match (Toml.entries? text).bind ofEntries? with
  | none => .error .malformed
  | some config => do
    config.check
    return config

/-- The configuration in a file. -/
def load (fs : FileSystem) (file : Path) : Except ConfigError Config :=
  match fs.read file with
  | .error e => .error (.unreadable e)
  | .ok bytes =>
    match Utf8.text? bytes with
    | none => .error .notText
    | some text => ofText text

end Config

end CompileCommands
