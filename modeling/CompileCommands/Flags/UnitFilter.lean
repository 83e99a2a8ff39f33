-- The flags of a unit without its own files. Two records that compile two
-- units in the same way differ only in the names of the units and of what
-- comes out of them. Without those names, their flags are the same.
import CompileCommands.Text

namespace CompileCommands.Flags

/-- The options whose own argument names an output of the unit. -/
def outputOptions : List String := ["-o", "-MF", "-MT", "-MQ"]

/-- A flag mentions a unit if what follows its last separator starts with the
base name of the unit and a dot. -/
def mentions (baseName flag : String) : Bool :=
  (baseName.toList ++ ['.']).isPrefixOf (Text.lastPiece Text.isSeparator flag.toList)

/-- The kept flags, last one first, without the output option on their top. -/
def dropOutputOption : List String → List String
  | [] => []
  | last :: kept => if last ∈ outputOptions then kept else last :: kept

/-- One flag more. A flag that mentions the unit goes, and takes the output
option before it along. -/
def filterStep (baseName : String) (kept : List String) (flag : String) : List String :=
  if mentions baseName flag then dropOutputOption kept else flag :: kept

/-- The flags that do not name the files of the unit. A unit without a base
name keeps all of its flags. -/
def withoutUnit (flags : List String) (baseName : String) : List String :=
  if baseName = "" then flags
  else (flags.foldl (filterStep baseName) []).reverse

end CompileCommands.Flags
