-- The items of a TOML document, and how a document grows. A table remembers
-- how it came to be, for that decides what may still be put into it.
import CompileCommands.Toml.Scalar

namespace CompileCommands.Toml

/-! ## Items -/

/-- How a table came to be. -/
inductive TableOrigin
  /-- By a header of its own, or as the whole document. -/
  | header
  /-- By a header of a table within it. -/
  | outline
  /-- By a dotted key. -/
  | dotted
  /-- Between braces. Nothing is put into it later. -/
  | braces
  deriving DecidableEq, Repr

/-- What stands under a key. -/
inductive Item
  | text (s : String)
  | scalar (s : Scalar)
  | array (items : List Item)
  | table (origin : TableOrigin) (entries : List (String × Item))
  /-- The tables of a header in double brackets. -/
  | tables (all : List (List (String × Item)))
  deriving Repr, Inhabited

/-- The entries of a table. -/
abbrev Entries := List (String × Item)

namespace Entries

/-- The entries with another item under a key that is there. -/
def replace (key : String) (item : Item) (entries : Entries) : Entries :=
  entries.map (fun entry => if entry.1 = key then (key, item) else entry)

/-- The entries with an item under a new key. -/
def add (key : String) (item : Item) (entries : Entries) : Option Entries :=
  if (entries.lookup key).isSome then none else some (entries ++ [(key, item)])

/-! ## Going down -/

/-- A way down may lead through a table. A dotted key does not lead through a
table with a header of its own, and nothing leads through braces. -/
def leadsThrough (way : TableOrigin) : TableOrigin → Bool
  | .header => way != .dotted
  | .outline | .dotted => true
  | .braces => false

/-- Goes down along some keys, and changes the table at their end. Tables that
are missing on the way are made, with the way as their origin. Of the tables
of a header in double brackets, the last one is open. -/
def change (way : TableOrigin) (edit : TableOrigin → Entries → Option Entries) :
    List String → TableOrigin → Entries → Option Entries
  | [], origin, entries => edit origin entries
  | key :: rest, _, entries =>
    match entries.lookup key with
    | none => do
      let below ← change way edit rest way []
      return entries ++ [(key, .table way below)]
    | some (.table origin below) =>
      if leadsThrough way origin then do
        let below ← change way edit rest origin below
        return entries.replace key (.table origin below)
      else none
    | some (.tables all) => do
      let below ← change way edit rest .header (all.getLast?.getD [])
      return entries.replace key (.tables (all.dropLast ++ [below]))
    | some _ => none

/-! ## Putting items in -/

/-- An item put under a dotted key. The table that holds it must have come to
be by a dotted key as well, unless the key has one part only. -/
def insert (path : List String) (item : Item) (entries : Entries) : Option Entries :=
  match path.getLast? with
  | none => none
  | some key =>
    change .dotted
      (fun origin entries =>
        if path.length = 1 ∨ origin = .dotted then entries.add key item else none)
      path.dropLast .header entries

/-- A table with a header of its own. It may be there in outline only. -/
def openTable (path : List String) (entries : Entries) : Option Entries :=
  match path.getLast? with
  | none => none
  | some key =>
    change .outline
      (fun _ entries =>
        match entries.lookup key with
        | none => entries.add key (.table .header [])
        | some (.table .outline below) => some (entries.replace key (.table .header below))
        | some _ => none)
      path.dropLast .header entries

/-- One more table of a header in double brackets. -/
def openTables (path : List String) (entries : Entries) : Option Entries :=
  match path.getLast? with
  | none => none
  | some key =>
    change .outline
      (fun _ entries =>
        match entries.lookup key with
        | none => entries.add key (.tables [[]])
        | some (.tables all) => some (entries.replace key (.tables (all ++ [[]])))
        | some _ => none)
      path.dropLast .header entries

/-- An item put under a dotted key of the table below a header. -/
def insertBelow (header path : List String) (item : Item) (entries : Entries) : Option Entries :=
  change .outline (fun _ entries => entries.insert path item) header .header entries

end Entries

end CompileCommands.Toml
