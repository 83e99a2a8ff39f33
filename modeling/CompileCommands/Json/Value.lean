-- JSON values, and how they are written: each item and each field on a line
-- of its own, two blanks further in than what holds it.

namespace CompileCommands.Json

/-- A JSON value. The only numbers that are written are whole and not
negative, and the fields of an object keep their order. -/
inductive Value
  | null
  | bool (b : Bool)
  | number (n : Nat)
  | text (s : String)
  | array (items : List Value)
  | object (fields : List (String × Value))
  deriving Repr, Inhabited

/-! ## Text -/

/-- The digits of a character that has no other escape. -/
def escapeByNumber (c : Char) : List Char :=
  ['\\', 'u', '0', '0', Nat.digitChar (c.toNat / 16), Nat.digitChar (c.toNat % 16)]

/-- A character as it stands between quotes. Quotes, backslashes and the
characters below the blank are escaped, and no others. -/
def escape (c : Char) : List Char :=
  if c = '"' then ['\\', '"']
  else if c = '\\' then ['\\', '\\']
  else if c = '\n' then ['\\', 'n']
  else if c = '\r' then ['\\', 'r']
  else if c = '\t' then ['\\', 't']
  else if c = '\x08' then ['\\', 'b']
  else if c = '\x0c' then ['\\', 'f']
  else if c < ' ' then escapeByNumber c
  else [c]

/-- A text between quotes. -/
def quoted (s : String) : String :=
  "\"" ++ String.ofList (s.toList.flatMap escape) ++ "\""

/-! ## Values -/

/-- The blanks before a line. -/
def indent (depth : Nat) : String := String.ofList (List.replicate (2 * depth) ' ')

/-- Lines between two brackets, the last one without a comma. -/
def bracketed (opening closing : String) (depth : Nat) (lines : List String) : String :=
  if lines.isEmpty then opening ++ closing
  else opening ++ "\n" ++ ",\n".intercalate lines ++ "\n" ++ indent depth ++ closing

mutual

/-- The text of a value that stands so many steps in. -/
def Value.write (depth : Nat) : Value → String
  | .null => "null"
  | .bool b => if b then "true" else "false"
  | .number n => toString n
  | .text s => quoted s
  | .array items => bracketed "[" "]" depth (writeItems (depth + 1) items)
  | .object fields => bracketed "\x7b" "\x7d" depth (writeFields (depth + 1) fields)

/-- The lines of the items of an array. -/
def writeItems (depth : Nat) : List Value → List String
  | [] => []
  | v :: rest => (indent depth ++ v.write depth) :: writeItems depth rest

/-- The lines of the fields of an object. -/
def writeFields (depth : Nat) : List (String × Value) → List String
  | [] => []
  | (key, v) :: rest =>
    (indent depth ++ quoted key ++ ": " ++ v.write depth) :: writeFields depth rest

end

namespace Value

/-- The text of a whole value. -/
def pretty (v : Value) : String := v.write 0

/-- A list of texts. -/
def texts (ss : List String) : Value := .array (ss.map .text)

/-- A value that may be missing. -/
def ofOption (write : α → Value) : Option α → Value
  | some x => write x
  | none => .null

end Value

end CompileCommands.Json
