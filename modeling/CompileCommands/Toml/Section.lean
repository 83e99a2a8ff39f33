-- Reading items as what a configuration needs: texts, truth values, lists,
-- choices and sections. An item of the wrong kind cannot be read.
import CompileCommands.Toml.Document

namespace CompileCommands.Toml

namespace Item

/-- The text of an item. -/
def text? : Item → Option String
  | .text s => some s
  | _ => none

/-- The truth value of an item. -/
def boolean? : Item → Option Bool
  | .scalar (.boolean b) => some b
  | _ => none

/-- The items of an array, or the tables of a header in double brackets. -/
def list? : Item → Option (List Item)
  | .array items => some items
  | .tables all => some (all.map (.table .header))
  | _ => none

/-- The texts of a list. -/
def texts? (item : Item) : Option (List String) := item.list?.bind (·.mapM text?)

/-- A table or an array in which there is nothing. -/
def isNothing : Item → Bool
  | .array items => items.isEmpty
  | .table _ entries => entries.isEmpty
  | .tables all => all.isEmpty
  | _ => false

/-- The name of a choice: a text, or a table with one key under which there is
nothing. -/
def choiceName? : Item → Option String
  | .text s => some s
  | .table _ [(name, item)] => if item.isNothing then some name else none
  | _ => none

/-- What a choice stands for. -/
def choice? (choices : List (String × α)) (item : Item) : Option α :=
  item.choiceName?.bind (choices.lookup ·)

/-- The entries of a section with the given keys. A list gives them in their
order. A date is a section in which nothing is set. -/
def section? (keys : List String) : Item → Option Entries
  | .table _ entries => some entries
  | .scalar .moment => some []
  | item => item.list?.map keys.zip

end Item

namespace Entries

/-- An entry that must be there. -/
def required (entries : Entries) (key : String) (read : Item → Option α) : Option α :=
  (entries.lookup key).bind read

/-- An entry that may be missing. -/
def optional (entries : Entries) (key : String) (read : Item → Option α) : Option (Option α) :=
  match entries.lookup key with
  | some item => (read item).map some
  | none => some none

/-- An entry that stands for something else if it is missing. -/
def orElse (entries : Entries) (key : String) (read : Item → Option α) (standard : α) :
    Option α :=
  (entries.optional key read).map (·.getD standard)

end Entries

end CompileCommands.Toml
