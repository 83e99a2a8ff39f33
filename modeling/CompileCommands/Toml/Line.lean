-- The lines of a TOML text: headers, and keys with their values. A value may
-- go over many lines. The tokens are read one at a time, and what is open is
-- kept on a stack.
import CompileCommands.Toml.Item

namespace CompileCommands.Toml

/-! ## Lines -/

/-- A line that says something. -/
inductive Line
  | table (path : List String)
  | tables (path : List String)
  | assignment (path : List String) (item : Item)
  deriving Repr

/-! ## Reading -/

/-- What a key is read for. -/
inductive KeyUse
  | assignment
  | table
  | tables
  /-- For an entry between braces. -/
  | entry
  deriving DecidableEq, Repr

/-- A value that is open. -/
inductive Frame
  /-- An array, last item first. -/
  | array (items : List Item)
  /-- A table between braces, and the key of the entry that is read. -/
  | braces (entries : Entries) (path : List String)
  deriving Repr

/-- Where reading stands. -/
inductive Place
  | lineStart
  /-- After the bracket of a header. -/
  | headerStart
  /-- In a key. A part of it is expected, or was just read. -/
  | key (use : KeyUse) (path : List String) (expected : Bool)
  /-- Before the second bracket behind a header. -/
  | tablesEnd (path : List String)
  /-- Before a value. -/
  | value
  /-- In a value without quotes. -/
  | scalar (chars : List Char)
  /-- After a date and a space. A time may follow. -/
  | dateEnd (chars : List Char)
  /-- In an array, where an item may start. -/
  | arrayStart
  | afterItem
  /-- After an opening brace. -/
  | bracesStart
  | afterEntry
  | lineEnd
  deriving Repr

/-- What is read so far. -/
structure Reading where
  place : Place
  frames : List Frame
  /-- The key of the line. -/
  path : List String

namespace Reading

/-- Where reading stands, and the lines that are complete. -/
abbrev Step := Option (Reading × List Line)

/-- Nothing is read yet. -/
def start : Reading := ⟨.lineStart, [], []⟩

/-- The number of parts of a key, and of values around a value, that is too
large. -/
def limit : Nat := 80

/-- Reading goes on at another place. -/
def goesTo (r : Reading) (place : Place) : Step := some ({ r with place := place }, [])

/-! ## Values -/

/-- A value is complete. -/
def complete (r : Reading) (item : Item) : Step :=
  match r.frames with
  | [] => some ({ r with place := .lineEnd }, [.assignment r.path item])
  | .array items :: rest =>
    some ({ r with place := .afterItem, frames := .array (item :: items) :: rest }, [])
  | .braces entries path :: rest => do
    let entries ← entries.insert path item
    return ({ r with place := .afterEntry, frames := .braces entries path :: rest }, [])

/-- A value without quotes is complete. -/
def completeScalar (r : Reading) (chars : List Char) : Step :=
  (Scalar.of? chars).bind (fun s => r.complete (.scalar s))

/-- A value is open within those that are open. -/
def opens (r : Reading) (place : Place) (frame : Frame) : Step :=
  if r.frames.length + 1 < limit then
    some ({ r with place := place, frames := frame :: r.frames }, [])
  else none

/-- The innermost open value is complete. -/
def closes (r : Reading) : Step :=
  match r.frames with
  | [] => none
  | .array items :: rest => complete { r with frames := rest } (.array items.reverse)
  | .braces entries _ :: rest => complete { r with frames := rest } (.table .braces entries)

/-- The first token of a value. -/
def valueStep (r : Reading) : Token → Step
  | .text s _ => r.complete (.text s)
  | .word chars => r.goesTo (.scalar chars)
  | .openBracket => r.opens .arrayStart (.array [])
  | .openBrace => r.opens .bracesStart (.braces [] [])
  | _ => none

/-! ## Keys -/

/-- The part of a key that a token stands for. -/
def keyPart? : Token → Option String
  | .word chars => if chars.all isKeyChar then some (String.ofList chars) else none
  | .text s true => some s
  | _ => none

/-- The end of a key. -/
def keyEnd (r : Reading) (use : KeyUse) (path : List String) (token : Token) : Step :=
  if limit ≤ path.length then none
  else match use, token with
    | .assignment, .equals => some ({ r with place := .value, path := path }, [])
    | .table, .closeBracket => some ({ r with place := .lineEnd }, [.table path])
    | .tables, .closeBracket => r.goesTo (.tablesEnd path)
    | .entry, .equals =>
      match r.frames with
      | .braces entries _ :: rest =>
        some ({ r with place := .value, frames := .braces entries path :: rest }, [])
      | _ => none
    | _, _ => none

/-- A token in a key. -/
def keyStep (r : Reading) (use : KeyUse) (path : List String) (expected : Bool)
    (token : Token) : Step :=
  match expected, token with
  | _, .space | _, .tab => r.goesTo (.key use path expected)
  | true, token => (keyPart? token).bind (fun part => r.goesTo (.key use (path ++ [part]) false))
  | false, .dot => r.goesTo (.key use path true)
  | false, token => r.keyEnd use path token

/-! ## Between values -/

/-- A token behind a complete value or header. -/
def afterStep (r : Reading) (token : Token) : Step :=
  match r.place, token with
  | .lineEnd, .newline => r.goesTo .lineStart
  | .lineEnd, .space | .lineEnd, .tab | .lineEnd, .comment => some (r, [])
  | .afterItem, .space | .afterItem, .tab | .afterItem, .comment | .afterItem, .newline =>
    some (r, [])
  | .afterItem, .comma => r.goesTo .arrayStart
  | .afterItem, .closeBracket => r.closes
  | .afterEntry, .space | .afterEntry, .tab => some (r, [])
  | .afterEntry, .comma => r.goesTo (.key .entry [] true)
  | .afterEntry, .closeBrace => r.closes
  | _, _ => none

/-- A token behind a value without quotes. -/
def afterScalarStep (r : Reading) (chars : List Char) (token : Token) : Step := do
  let (r, lines) ← r.completeScalar chars
  let (r, more) ← r.afterStep token
  return (r, lines ++ more)

/-- A token in a value without quotes. A space may stand between a date and a
time. -/
def scalarStep (r : Reading) (chars : List Char) (token : Token) : Step :=
  match token with
  | .word more => r.goesTo (.scalar (chars ++ more))
  | .dot => r.goesTo (.scalar (chars ++ ['.']))
  | .space =>
    if Scalar.isDate chars then r.goesTo (.dateEnd chars) else r.afterScalarStep chars .space
  | token => r.afterScalarStep chars token

/-! ## All tokens -/

/-- The first token of a line. -/
def lineStep (r : Reading) (token : Token) : Step :=
  match token with
  | .space | .tab | .newline | .comment => some (r, [])
  | .openBracket => r.goesTo .headerStart
  | token => r.keyStep .assignment [] true token

/-- One token more. -/
def step (r : Reading) (token : Token) : Step :=
  match r.place with
  | .lineStart => r.lineStep token
  | .headerStart =>
    if token = .openBracket then r.goesTo (.key .tables [] true)
    else r.keyStep .table [] true token
  | .key use path expected => r.keyStep use path expected token
  | .tablesEnd path =>
    if token = .closeBracket then some ({ r with place := .lineEnd }, [.tables path]) else none
  | .value => if token = .space ∨ token = .tab then some (r, []) else r.valueStep token
  | .scalar chars => r.scalarStep chars token
  | .dateEnd chars =>
    match token with
    | .word more => r.goesTo (.scalar (chars ++ [' '] ++ more))
    | token => r.afterScalarStep chars token
  | .arrayStart =>
    if token = .space ∨ token = .tab ∨ token = .newline ∨ token = .comment then some (r, [])
    else if token = .closeBracket then r.closes
    else r.valueStep token
  | .bracesStart =>
    if token = .space ∨ token = .tab then some (r, [])
    else if token = .closeBrace then r.closes
    else r.keyStep .entry [] true token
  | .afterItem | .afterEntry | .lineEnd => r.afterStep token

/-- The lines that the end of the text completes. Nothing may be open there. -/
def finish (r : Reading) : Option (List Line) :=
  match r.frames, r.place with
  | [], .lineStart | [], .lineEnd => some []
  | [], .scalar chars | [], .dateEnd chars => (r.completeScalar chars).map (·.2)
  | _, _ => none

/-- The lines of the tokens that are left. -/
def lines (r : Reading) : List Token → Option (List Line)
  | [] => r.finish
  | token :: rest => do
    let (next, done) ← r.step token
    return done ++ (← next.lines rest)

end Reading

/-- The lines of a text, if it is well formed. -/
def lines? (text : String) : Option (List Line) := do
  Reading.start.lines (← tokens? text)

end CompileCommands.Toml
