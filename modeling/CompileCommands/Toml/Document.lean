-- TOML documents. The lines of a text are put into one table after another;
-- a key that is given twice spoils the whole document.
import CompileCommands.Toml.Line

namespace CompileCommands.Toml

/-- A document that is read in part: its entries, and the table that the next
keys belong to. -/
structure Document where
  entries : Entries
  header : List String

namespace Document

/-- Nothing is read yet. -/
def empty : Document := ⟨[], []⟩

/-- One line more. -/
def step (d : Document) : Line → Option Document
  | .table path => (d.entries.openTable path).map (⟨·, path⟩)
  | .tables path => (d.entries.openTables path).map (⟨·, path⟩)
  | .assignment path item =>
    (d.entries.insertBelow d.header path item).map (⟨·, d.header⟩)

end Document

/-- The entries of the document that a text stands for. -/
def entries? (text : String) : Option Entries := do
  let document ← (← lines? text).foldlM Document.step Document.empty
  return document.entries

end CompileCommands.Toml
