-- The flags of a record, taken apart: directories of headers, macros, the
-- sysroot, the kind of the source, and the flags that are left. A flag is
-- read for what it means by itself; an option that stands apart from its
-- argument leaves word of what the next flag is.
import CompileCommands.Flags.UnitFilter
import CompileCommands.SourceKind
import CompileCommands.Path.Normal

namespace CompileCommands

/-! ## What flags name -/

/-- How a directory of headers is searched. -/
inductive HeaderKind
  | user
  | system
  | framework
  deriving DecidableEq, Repr

/-- A directory of headers. -/
structure HeaderPath where
  path : Path
  kind : HeaderKind
  deriving DecidableEq, Repr

/-- A macro is defined or undefined. -/
inductive MacroKind
  | define
  | undefine
  deriving DecidableEq, Repr

/-- A macro that a flag defines or undefines. -/
structure Macro where
  name : String
  value : String
  kind : MacroKind
  deriving DecidableEq, Repr

namespace Macro

/-- The macro in the argument of an option. Without a value, a definition
stands for one. -/
def ofArgument (kind : MacroKind) (text : String) : Macro :=
  match Text.cutAt '=' text with
  | (name, some value) => ⟨name, value, kind⟩
  | (name, none) =>
    match kind with
    | .define => ⟨name, "1", kind⟩
    | .undefine => ⟨name, "", kind⟩

/-- The line of C that does the same. -/
def directive (m : Macro) : String :=
  match m.kind with
  | .define => "#define " ++ m.name ++ " " ++ m.value
  | .undefine => "#undef " ++ m.name

end Macro

namespace Flags

/-! ## Tables of options -/

/-- The options that name a directory of headers. None of them starts another. -/
def headerOptions : List (String × HeaderKind) :=
  [("-I", .user), ("-iquote", .user), ("/I", .user),
   ("-isystem", .system), ("-idirafter", .system), ("-imsvc", .system), ("/imsvc", .system),
   ("-F", .framework), ("-iframework", .framework)]

/-- The options that name a macro. -/
def macroOptions : List (String × MacroKind) :=
  [("-D", .define), ("/D", .define), ("-U", .undefine), ("/U", .undefine)]

/-- The flags that a code model has no use for: warnings, optimization, and
the like. -/
def isDropped (flag : String) : Bool :=
  flag == "-c" || flag == "-pedantic" ||
    Text.startsWith flag "-O" || Text.startsWith flag "-W" || Text.startsWith flag "-w" ||
    Text.sameLetters flag "-fpic" || Text.sameLetters flag "-fpie"

/-- A switch in the style of `cl`. On Unix a path may start with a slash as
well, so there a switch has no other slash. -/
def isSwitch (host : Host) (flag : String) : Bool :=
  match flag.toList with
  | '/' :: rest => host == .windows || !rest.contains '/'
  | _ => false

/-- The option that a flag starts with, and the text after it. -/
def optionOf? (options : List (String × α)) (flag : String) : Option (α × String) :=
  options.findSome? (fun (option, kind) => (Text.after? flag option).map (fun rest => (kind, rest)))

/-! ## The meaning of one flag -/

/-- What one flag means by itself. -/
inductive Meaning
  /-- The next flag names an output. -/
  | output
  /-- Nothing that counts. -/
  | dropped
  /-- The next flag names the language. -/
  | language
  | headerPath (kind : HeaderKind) (dir : String)
  /-- The next flag names a directory of headers. -/
  | headerOption (kind : HeaderKind)
  | definition (kind : MacroKind) (text : String)
  /-- The next flag names a macro. -/
  | macroOption (kind : MacroKind)
  | sysroot (dir : String)
  /-- Any other flag. It may say what the source is, and it may be kept. -/
  | other (kept : Bool)
  deriving DecidableEq, Repr

/-- The directory of headers that a flag names or announces. -/
def headerMeaning? (host : Host) (flag : String) : Option Meaning :=
  match optionOf? headerOptions flag with
  | some (kind, "") => some (.headerOption kind)
  | some (kind, dir) =>
    if Text.startsWith flag "/" && !isSwitch host flag then none
    else some (.headerPath kind dir)
  | none => none

/-- The macro that a flag names or announces. -/
def macroMeaning? (host : Host) (flag : String) : Option Meaning :=
  match optionOf? macroOptions flag with
  | some (kind, text) =>
    if Text.startsWith flag "/" && !isSwitch host flag then none
    else if text = "" then some (.macroOption kind)
    else some (.definition kind text)
  | none => none

/-- The sysroot that a flag names. -/
def sysrootMeaning? (flag : String) : Option Meaning :=
  (Text.after? flag "--sysroot=").map .sysroot

/-- The meaning of a flag. Of the switches, only those of debug information
are kept. -/
def meaning (host : Host) (flag : String) : Meaning :=
  if flag ∈ outputOptions then .output
  else if isDropped flag then .dropped
  else if flag = "-x" then .language
  else
    (headerMeaning? host flag).getD <|
    (macroMeaning? host flag).getD <|
    (sysrootMeaning? flag).getD <|
    .other (!isSwitch host flag || Text.startsWith flag "/Z")

/-! ## Reading all flags -/

/-- What the next flag is, whatever it looks like. -/
inductive Pending
  | headerPath (kind : HeaderKind)
  | definition (kind : MacroKind)
  | language
  | output
  deriving DecidableEq, Repr

/-- What the flags of a record say. -/
structure Analysis where
  flags : List String
  headerPaths : List HeaderPath
  macros : List Macro
  kind : SourceKind
  sysroot : Option Path
  deriving DecidableEq, Repr

namespace Analysis

/-- Nothing is read yet. -/
def empty : Analysis := ⟨[], [], [], .unclassified, none⟩

/-- One flag more is kept. -/
def keep (a : Analysis) (flag : String) : Analysis := { a with flags := a.flags ++ [flag] }

/-- One directory of headers more. -/
def addHeaderPath (a : Analysis) (path : Path) (kind : HeaderKind) : Analysis :=
  { a with headerPaths := a.headerPaths ++ [⟨path, kind⟩] }

/-- One macro more. -/
def addMacro (a : Analysis) (m : Macro) : Analysis := { a with macros := a.macros ++ [m] }

/-- The first kind that is given stands. -/
def offerKind (a : Analysis) (kind : SourceKind) : Analysis :=
  if a.kind = .unclassified then { a with kind := kind } else a

/-- The first sysroot that is given stands. -/
def offerSysroot (a : Analysis) (dir : Path) : Analysis :=
  { a with sysroot := a.sysroot.or (some dir) }

end Analysis

/-- The file and the directory of a record, and the host: all that a flag is
read against. -/
structure Context where
  file : Path
  directory : Path
  host : Host
  deriving DecidableEq, Repr

/-- The directory that an argument names. -/
def Context.resolve (ctx : Context) (dir : String) : Path :=
  (Path.ofNative dir).absolutize ctx.directory

/-- What was read so far, and what was said of the next flag. -/
structure Reading where
  analysis : Analysis
  pending : Option Pending
  deriving DecidableEq, Repr

namespace Reading

/-- Nothing is read, and nothing is said. -/
def start : Reading := ⟨.empty, none⟩

/-- A flag that is the argument of the flag before it. -/
def argument (ctx : Context) (a : Analysis) (flag : String) : Pending → Analysis
  | .headerPath kind => a.addHeaderPath (ctx.resolve flag) kind
  | .definition kind => a.addMacro (Macro.ofArgument kind flag)
  | .language => (a.offerKind (SourceKind.ofLanguageName flag ctx.file)).keep flag
  | .output => a

/-- A flag with a meaning of its own. -/
def apply (ctx : Context) (a : Analysis) (flag : String) : Meaning → Reading
  | .output => ⟨a, some .output⟩
  | .dropped => ⟨a, none⟩
  | .language => ⟨a.keep flag, some .language⟩
  | .headerPath kind dir => ⟨a.addHeaderPath (ctx.resolve dir) kind, none⟩
  | .headerOption kind => ⟨a, some (.headerPath kind)⟩
  | .definition kind text => ⟨a.addMacro (Macro.ofArgument kind text), none⟩
  | .macroOption kind => ⟨a, some (.definition kind)⟩
  | .sysroot dir => ⟨a.offerSysroot (ctx.resolve dir), none⟩
  | .other kept =>
    let a := match SourceKind.ofFlag? flag ctx.file with
      | some kind => a.offerKind kind
      | none => a
    ⟨if kept then a.keep flag else a, none⟩

/-- One flag more. -/
def step (ctx : Context) (r : Reading) (flag : String) : Reading :=
  match r.pending with
  | some pending => ⟨argument ctx r.analysis flag pending, none⟩
  | none => apply ctx r.analysis flag (meaning ctx.host flag)

end Reading

/-- A flag that cannot be the compiler. -/
def isOption (host : Host) (flag : String) : Bool :=
  Text.startsWith flag "-" || (host == .windows && Text.startsWith flag "/")

/-- The flags after the compiler. The first flag is the compiler unless it
looks like an option. -/
def withoutCompiler (host : Host) : List String → List String
  | [] => []
  | first :: rest => if isOption host first then first :: rest else rest

/-- What the flags of a record say. If no flag gives the kind, the extension
of the file does. -/
def analyze (ctx : Context) (flags : List String) : Analysis :=
  let read := (withoutCompiler ctx.host flags).foldl (Reading.step ctx) .start
  read.analysis.offerKind (SourceKind.ofPath ctx.file)

end Flags

end CompileCommands
