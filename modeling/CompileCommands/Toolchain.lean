-- Toolchains. A toolchain is one compiler for one language. A registry holds
-- the toolchains that are known, and the defaults of the build environment.
import CompileCommands.Path

namespace CompileCommands

/-- The language that a toolchain compiles. -/
inductive Language
  | c
  | cxx
  deriving DecidableEq, Repr

/-- The name of a language in messages. -/
def Language.title : Language → String
  | .c => "C"
  | .cxx => "C++"

/-- The host whose compiler conventions apply. -/
inductive Host
  | unix
  | windows
  deriving DecidableEq, Repr

/-- A family of compilers with one way to be called. -/
inductive Family
  | gcc
  | mingw
  | clang
  | clangCl
  | msvc
  deriving DecidableEq, Repr

namespace Family

/-- The two families of Clang. -/
def isClang (f : Family) : Bool := f = .clang || f = .clangCl

/-- The name of a family in files. -/
def name : Family → String
  | .gcc => "gcc"
  | .mingw => "mingw"
  | .clang => "clang"
  | .clangCl => "clang-cl"
  | .msvc => "msvc"

/-- A compiler with this name belongs to GCC. `clang++` holds `g++` and does
not. -/
def isGccName (name : String) : Bool :=
  Text.contains name "gcc" || (Text.contains name "g++" && !Text.contains name "clang")

/-- The family that the file name of a compiler suggests. On Windows the case
of the letters and the ending `.exe` do not count, and a name that ends in
`cl` is a driver in the style of `cl`. -/
def ofFileName (fileName : String) : Host → Family
  | .unix => if isGccName fileName then .gcc else .clang
  | .windows =>
    let name := Text.withoutEnd (Text.lower fileName) ".exe"
    if isGccName name then .mingw
    else if Text.endsWith name "cl" then .clangCl
    else .clang

/-- The family of Clang that stands in for a missing family on a host. -/
def substitute : Host → Family
  | .unix => .clang
  | .windows => .clangCl

end Family

/-- One compiler for one language. Only a valid toolchain is ever chosen by
a search. -/
structure Toolchain where
  id : String
  family : Family
  language : Language
  compiler : Path
  valid : Bool
  deriving DecidableEq, Repr

/-- The toolchains that a build environment takes where none is found. They
need not stand in a registry. -/
structure Environment where
  defaultC : Option Toolchain
  defaultCxx : Option Toolchain
  deriving DecidableEq, Repr

/-- The toolchain that an environment takes for a language. -/
def Environment.default? (e : Environment) : Language → Option Toolchain
  | .c => e.defaultC
  | .cxx => e.defaultCxx

/-- The toolchains that are known, in order, and what the environment names:
a default per language, and a sysroot. -/
structure Registry where
  toolchains : List Toolchain
  defaultC : Option String
  defaultCxx : Option String
  sysroot : Option Path
  deriving DecidableEq, Repr

namespace Registry

/-- A registry without toolchains and defaults. -/
def empty : Registry := ⟨[], none, none, none⟩

/-- The first toolchain with this id. -/
def get? (r : Registry) (id : String) : Option Toolchain :=
  r.toolchains.find? (·.id == id)

/-- The first valid toolchain that meets a condition. -/
def findValid? (r : Registry) (wanted : Toolchain → Bool) : Option Toolchain :=
  r.toolchains.find? (fun t => t.valid && wanted t)

/-- The id that the environment names for a language. -/
def defaultId? (r : Registry) : Language → Option String
  | .c => r.defaultC
  | .cxx => r.defaultCxx

/-- The toolchain that the environment names for a language. An id that
names no toolchain counts for nothing. -/
def default? (r : Registry) (language : Language) : Option Toolchain :=
  (r.defaultId? language).bind r.get?

/-- The environment in which the toolchains that are named count. -/
def environment (r : Registry) : Environment := ⟨r.default? .c, r.default? .cxx⟩

end Registry

end CompileCommands
