-- Command lines. A command is one text; its arguments are separated by
-- blanks, and quotes and backslashes keep blanks inside an argument.
import CompileCommands.Text

namespace CompileCommands.CommandLine

/-- How the characters that come next are read. -/
inductive Mode
  /-- Outside quotes. -/
  | plain
  /-- After a backslash outside quotes. -/
  | plainEscape
  /-- Between single quotes. -/
  | single
  /-- Between double quotes. -/
  | double
  /-- After a backslash between double quotes. -/
  | doubleEscape
  deriving DecidableEq, Repr

/-- A command that is read in part: the argument under way, last character
first, or none between two arguments. -/
structure Reading where
  mode : Mode
  word : Option (List Char)
  deriving DecidableEq, Repr

namespace Reading

/-- Nothing is read yet. -/
def start : Reading := ⟨.plain, none⟩

/-- The characters of the argument under way. -/
def chars (r : Reading) : List Char := r.word.getD []

/-- The argument under way, with one character more. -/
def push (r : Reading) (c : Char) : Option (List Char) := some (c :: r.chars)

/-- The argument under way is begun, even if nothing is in it. -/
def touch (r : Reading) : Option (List Char) := some r.chars

/-- A character outside quotes. A blank ends the argument under way. -/
def plainStep (r : Reading) (c : Char) : Reading × Option (List Char) :=
  if Text.isBlank c then (⟨.plain, none⟩, r.word)
  else if c = '\'' then (⟨.single, r.touch⟩, none)
  else if c = '"' then (⟨.double, r.touch⟩, none)
  else if c = '\\' then (⟨.plainEscape, r.touch⟩, none)
  else (⟨.plain, r.push c⟩, none)

/-- One character. The second part is an argument that ends here, last
character first.

Outside quotes a backslash stands for a quote, a backslash or a space that
follows it, and for itself before anything else. Between double quotes it
does so only before a double quote or a backslash. Between single quotes it
is a character like any other. -/
def step (r : Reading) (c : Char) : Reading × Option (List Char) :=
  match r.mode with
  | .plain => r.plainStep c
  | .plainEscape =>
    if c = '"' ∨ c = '\'' ∨ c = '\\' ∨ c = ' ' then (⟨.plain, r.push c⟩, none)
    else plainStep ⟨.plain, r.push '\\'⟩ c
  | .single =>
    if c = '\'' then (⟨.plain, r.touch⟩, none) else (⟨.single, r.push c⟩, none)
  | .double =>
    if c = '"' then (⟨.plain, r.touch⟩, none)
    else if c = '\\' then (⟨.doubleEscape, r.touch⟩, none)
    else (⟨.double, r.push c⟩, none)
  | .doubleEscape =>
    if c = '"' ∨ c = '\\' then (⟨.double, r.push c⟩, none)
    else (⟨.double, some (c :: '\\' :: r.chars)⟩, none)

/-- The argument that is left at the end of the command. An open quote ends
there, and a backslash at the very end stands for itself. -/
def finish (r : Reading) : Option (List Char) :=
  match r.mode with
  | .plainEscape | .doubleEscape => r.push '\\'
  | _ => r.word

/-- The arguments that the rest of the command completes. -/
def words (r : Reading) : List Char → List (List Char)
  | [] => r.finish.toList.map List.reverse
  | c :: cs =>
    let (next, done) := r.step c
    done.toList.map List.reverse ++ next.words cs

end Reading

/-- The arguments of a command, as lists of characters. -/
def splitChars (cs : List Char) : List (List Char) := Reading.start.words cs

/-- The arguments of a command. -/
def split (command : String) : List String :=
  (splitChars command.toList).map String.ofList

end CompileCommands.CommandLine
