-- How names are read as text. A path holds its names as the file system has
-- them, and the file system takes any bytes. Where a name is shown or looked up
-- as text it is read first, and two names may then be one.
import CompileCommands.Utf8

namespace CompileCommands

/-- How the names in paths are read. -/
class Reading where
  read : String → String

namespace Reading

/-- All names are Unicode, and are read as they stand. -/
instance unicode : Reading := ⟨id⟩

@[simp]
theorem unicode_read (name : String) : unicode.read name = name := rfl

/-! ## Names of bytes -/

/-- The byte for which a character stands in a name that is not Unicode: the
bytes from `0x80` on stand as the private characters from `U+10FE80` on. -/
def byte? (c : Char) : Option UInt8 :=
  if 0x10FE80 ≤ c.toNat && c.toNat < 0x10FF00 then some (UInt8.ofNat (c.toNat - 0x10FE00))
  else none

/-- The bytes of a name. -/
def bytesOf (name : String) : List UInt8 :=
  name.toList.flatMap fun c =>
    match byte? c with
    | some b => [b]
    | none => String.utf8EncodeChar c

/-- Names are bytes, and what does not decode in them is replaced. -/
abbrev lossy : Reading := ⟨fun name => String.ofList (Utf8.lossy (bytesOf name))⟩

end Reading

end CompileCommands
