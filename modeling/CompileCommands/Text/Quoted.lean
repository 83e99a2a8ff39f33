-- Quoted text, as messages show it: between double quotes, with escapes for
-- the characters that could not be read else.
import CompileCommands.Text.Unshown

namespace CompileCommands.Text

/-- The number of a character, in hexadecimal digits. -/
def hexText (n : Nat) : String := String.ofList (Nat.toDigits 16 n)

/-- The escape of a character that has a short one. -/
def shortEscape? : Char → Option String
  | '\x00' => some "\\0"
  | '\t' => some "\\t"
  | '\n' => some "\\n"
  | '\r' => some "\\r"
  | '"' => some "\\\""
  | '\\' => some "\\\\"
  | _ => none

/-- A character as it stands in a quoted text. -/
def quotedChar (c : Char) : String :=
  match shortEscape? c with
  | some escape => escape
  | none =>
    if isUnshown c then "\\u\x7b" ++ hexText c.toNat ++ "\x7d" else String.singleton c

/-- The text between double quotes. -/
def quoted (s : String) : String := "\"" ++ String.join (s.toList.map quotedChar) ++ "\""

end CompileCommands.Text
