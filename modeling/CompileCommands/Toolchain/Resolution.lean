-- The choice of a toolchain for a compiler. The compiler itself is looked
-- for first, then its family, then Clang in its place, then the default.
import CompileCommands.Toolchain
import CompileCommands.Path.Normal
import CompileCommands.Diagnostic

namespace CompileCommands

/-- The step that ended a search. -/
inductive Step
  /-- There was no compiler to look for. -/
  | environmentDefault
  | exactMatch
  | familyMatch
  | clangFallback
  /-- Nothing matched the compiler. -/
  | defaultFallback
  deriving DecidableEq, Repr

/-- What a search found, and what it has to tell. -/
structure Resolution where
  toolchain : Option Toolchain
  step : Step
  diagnostics : List Diagnostic
  deriving DecidableEq, Repr

namespace Registry

/-! ## The compiler of a command -/

/-- The place of a compiler, with slashes and without dots. -/
def compilerPath (token : String) : Path := (Path.ofNative token).normalize

/-- Two spellings of one compiler. On Windows the separators and the case of
the letters do not count. -/
def sameCompiler (registered invoked : Path) : Host → Bool
  | .unix => registered.same invoked
  | .windows =>
    Text.lower (Path.withSlashes registered.text) == Text.lower (Path.withSlashes invoked.text)

/-! ## The search -/

/-- There is no toolchain for a language, told of in a diagnostic. -/
def missingNote (language : Language) : Diagnostic :=
  (Diagnostic.plain .warning .toolchainMissing
    ("no " ++ language.title ++ " toolchain is available")).withHelp
    "register a toolchain or configure a default for the environment"

/-- The default that was taken for a compiler, told of in a diagnostic. -/
def defaultedNote (compiler : Path) (language : Language) (toolchain : Toolchain) : Diagnostic :=
  (Diagnostic.plain .warning .toolchainDefaulted
    ("no " ++ language.title ++ " toolchain matches `" ++ compiler.text ++
      "`; using the default `" ++ toolchain.id ++ "`")).about compiler

/-- The default of the environment, and the warning if there is none. -/
def resolveDefault (env : Environment) (language : Language) (step : Step) : Resolution :=
  match env.default? language with
  | some toolchain => ⟨some toolchain, step, []⟩
  | none => ⟨none, step, [missingNote language]⟩

/-- The first valid toolchain of a family. -/
def ofFamily? (r : Registry) (family : Family) (language : Language) : Option Toolchain :=
  r.findValid? (fun t => t.language == language && t.family == family)

/-- The first valid toolchain with this very compiler. -/
def ofCompiler? (r : Registry) (host : Host) (compiler : Path) (language : Language) :
    Option Toolchain :=
  r.findValid? (fun t => t.language == language && sameCompiler t.compiler compiler host)

/-- The toolchain that stands in for a family that is not there. Clang is not
replaced. -/
def substitute? (r : Registry) (host : Host) (family : Family) (language : Language) :
    Option Toolchain :=
  if family.isClang then none else r.ofFamily? (Family.substitute host) language

/-- The default, taken because nothing matched the compiler. -/
def fallBack (env : Environment) (compiler : Path) (language : Language) : Resolution :=
  let found := resolveDefault env language .defaultFallback
  match found.toolchain with
  | none => found
  | some toolchain =>
    { found with diagnostics := found.diagnostics ++ [defaultedNote compiler language toolchain] }

/-- The family that the file name of a compiler suggests. -/
def familyOf (host : Host) (compiler : Path) : Family :=
  Family.ofFileName (compiler.fileName?.getD "") host

/-- The toolchain for a compiler that is named. -/
def resolveCompiler (r : Registry) (env : Environment) (host : Host) (token : String)
    (language : Language) : Resolution :=
  let compiler := compilerPath token
  let family := familyOf host compiler
  match r.ofCompiler? host compiler language with
  | some toolchain => ⟨some toolchain, .exactMatch, []⟩
  | none =>
    match r.ofFamily? family language with
    | some toolchain => ⟨some toolchain, .familyMatch, []⟩
    | none =>
      match r.substitute? host family language with
      | some toolchain => ⟨some toolchain, .clangFallback, []⟩
      | none => fallBack env compiler language

/-- The toolchain for the first flag of a record, in some environment. Without
a flag, or with an empty one, it is the default of the environment. -/
def resolveIn (r : Registry) (env : Environment) (host : Host) (compiler : Option String)
    (language : Language) : Resolution :=
  match compiler with
  | none | some "" => resolveDefault env language .environmentDefault
  | some token => r.resolveCompiler env host token language

/-- The toolchain for the first flag of a record, in the environment of the
registry itself. -/
def resolve (r : Registry) (host : Host) (compiler : Option String) (language : Language) :
    Resolution :=
  r.resolveIn r.environment host compiler language

end Registry

/-! ## Driving one compiler like another -/

/-- The flag that makes Clang-CL read a command line written for GCC. -/
def driverModeFlag : String := "--driver-mode=g++"

/-- A Clang-CL toolchain needs the flag if the command itself does not call a
driver in the style of `cl`. -/
def Toolchain.needsDriverMode (t : Toolchain) (compiler : Option String) : Bool :=
  match compiler with
  | none | some "" => false
  | some token =>
    let name := Text.lower token
    t.family == .clangCl && !(Text.endsWith name "cl" || Text.endsWith name "cl.exe")

end CompileCommands
