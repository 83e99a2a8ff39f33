-- Kinds of source files. The extension of a file says what it is, unless a
-- flag says so first.
import CompileCommands.Toolchain

namespace CompileCommands

/-- What a file of the C family is. -/
inductive SourceKind
  | unclassified
  | cHeader
  | cSource
  | cxxHeader
  | cxxSource
  | objcHeader
  | objcSource
  | objcxxHeader
  | objcxxSource
  /-- A file named `.h`, which any of the languages may include. -/
  | ambiguousHeader
  deriving DecidableEq, Repr

namespace SourceKind

/-- A header of some language. -/
def isHeader : SourceKind → Bool
  | .cHeader | .cxxHeader | .objcHeader | .objcxxHeader | .ambiguousHeader => true
  | _ => false

/-- A source file of some language. -/
def isSource : SourceKind → Bool
  | .cSource | .cxxSource | .objcSource | .objcxxSource => true
  | _ => false

/-- The language whose toolchain compiles the kind. Only plain C goes to the
C toolchain, and all else, unclassified files too, to that of C++. -/
def language : SourceKind → Language
  | .cHeader | .cSource => .c
  | _ => .cxx

/-! ## By extension -/

/-- The extensions whose case does not count. -/
def ofLowerExtension (ext : String) : SourceKind :=
  if ext ∈ ["c", "i"] then .cSource
  else if ext ∈ ["cpp", "cxx", "cc", "c++", "cp", "cppm", "ixx"] then .cxxSource
  else if ext = "h" then .ambiguousHeader
  else if ext ∈ ["hpp", "hxx", "hh", "h++", "hp", "inl", "tcc", "txx"] then .cxxHeader
  else if ext = "m" then .objcSource
  else if ext = "mm" then .objcxxSource
  else .unclassified

/-- The kind that an extension stands for. `C` and `H` are C++. -/
def ofExtension (ext : String) : SourceKind :=
  if ext = "C" ∨ ext = "ii" then .cxxSource
  else if ext = "H" then .cxxHeader
  else ofLowerExtension (Text.lower ext)

/-- The kind of a file by its extension. -/
def ofPath (file : Path) : SourceKind :=
  match file.extension? with
  | some ext => ofExtension ext
  | none => .unclassified

/-! ## By flag -/

/-- The kind that the argument of `-x` names. Whether a plain language means
a header or a source is taken from the file. -/
def ofLanguageName (language : String) (file : Path) : SourceKind :=
  let header := (ofPath file).isHeader
  match language with
  | "c" => if header then .cHeader else .cSource
  | "c-header" => .cHeader
  | "c++" => if header then .cxxHeader else .cxxSource
  | "c++-header" => .cxxHeader
  | "objective-c" => if header then .objcHeader else .objcSource
  | "objective-c-header" => .objcHeader
  | "objective-c++" => if header then .objcxxHeader else .objcxxSource
  | "objective-c++-header" => .objcxxHeader
  | _ => .unclassified

/-- The kind that the name of a language standard stands for. -/
def ofStandard (standard : String) (file : Path) : SourceKind :=
  let cxx := Text.contains standard "c++" || Text.contains standard "gnu++"
  match cxx, (ofPath file).isHeader with
  | true, true => .cxxHeader
  | true, false => .cxxSource
  | false, true => .cHeader
  | false, false => .cSource

/-- The kind that a flag gives a file: `/TC`, `/TP`, `-std=` and `/std:`. -/
def ofFlag? (flag : String) (file : Path) : Option SourceKind :=
  if flag = "/TC" then some .cSource
  else if flag = "/TP" then some .cxxSource
  else ((Text.after? flag "-std=").or (Text.after? flag "/std:")).map (ofStandard · file)

end SourceKind

end CompileCommands
