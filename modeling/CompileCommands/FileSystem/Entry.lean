-- The entries of directories, as values: files, directories and links.

namespace CompileCommands

/-- What a name in a directory stands for. -/
inductive Entry
  | file (bytes : List UInt8)
  | directory (entries : List (String × Entry))
  | link (target : String)
  deriving Repr, Inhabited

namespace Entry

/-- What the names lead to, one directory below another. Links are not
followed. -/
def at? (e : Entry) : List String → Option Entry
  | [] => some e
  | name :: rest =>
    match e with
    | .directory entries =>
      match entries.lookup name with
      | some below => below.at? rest
      | none => none
    | _ => none

/-- The named entries of a directory. Nothing else has any. -/
def entries : Entry → List (String × Entry)
  | .directory entries => entries
  | _ => []

/-- Named entries in which a name stands for `e`. -/
def setEntry (name : String) (e : Entry) : List (String × Entry) → List (String × Entry)
  | [] => [(name, e)]
  | (other, old) :: rest =>
    if other = name then (name, e) :: rest else (other, old) :: setEntry name e rest

/-- The entry with `new` at the place to which the names lead. Directories
that are missing on the way are made. -/
def put (new e : Entry) : List String → Entry
  | [] => new
  | name :: rest =>
    let below := (e.entries.lookup name).getD (.directory [])
    .directory (setEntry name (put new below rest) e.entries)

/-- The entry without what the names lead to. -/
def erase (e : Entry) : List String → Entry
  | [] => e
  | [name] => .directory (e.entries.filter (fun entry => entry.1 != name))
  | name :: rest =>
    match e.entries.lookup name with
    | some below => .directory (setEntry name (below.erase rest) e.entries)
    | none => e

end Entry

end CompileCommands
