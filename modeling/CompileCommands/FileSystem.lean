-- A file system as a value: directories, files and links, and the place from
-- which relative paths are seen. Nothing here touches a disk.
import CompileCommands.FileSystem.Walk

namespace CompileCommands

/-- The root directory, and the names of the working directory. Without a
working directory, no relative path is found. -/
structure FileSystem where
  root : Entry
  workingDirectory : Option (List String)
  deriving Repr

namespace FileSystem

/-- A file system in which there is nothing. -/
def empty : FileSystem := ⟨.directory [], none⟩

/-! ## Lookups -/

/-- The names to which a walk along the path leads, once all links are
followed. -/
def follow (fs : FileSystem) (m : Manner) (p : Path) : Except IoError (List String) :=
  if p.text = "" then .error .notFound
  else if p.text.toList.contains '\x00' then .error .zeroCharacter
  else if !Manner.within m.longestText p.text.utf8ByteSize then .error .nameTooLong
  else match p.isAbsolute, fs.workingDirectory with
    | false, none => .error .notFound
    | _, here =>
      (walk m fs.root maxLinks (startOf p.text (here.getD []).reverse) p.pieces).map
        List.reverse

/-- The names that lead to what a path stands for. -/
def locate (fs : FileSystem) (p : Path) : Except IoError (List String) := fs.follow .whole p

/-- What a path stands for. -/
def entry (fs : FileSystem) (p : Path) : Except IoError Entry := do
  let names ← fs.locate p
  match fs.root.at? names with
  | some e => .ok e
  | none => .error .notFound

/-- The path without links and dots, of a path that stands for something. -/
def canonical (fs : FileSystem) (p : Path) : Except IoError Path :=
  (fs.follow .stepwise p).map pathOf

/-- The bytes of a file. -/
def read (fs : FileSystem) (p : Path) : Except IoError (List UInt8) := do
  match ← fs.entry p with
  | .file bytes => .ok bytes
  | .directory _ => .error .isDirectory
  | .link _ => .error .notFound

/-- The path stands for something. -/
def isPresent (fs : FileSystem) (p : Path) : Bool :=
  match fs.entry p with
  | .ok _ => true
  | .error _ => false

/-- The path stands for a file. -/
def isFile (fs : FileSystem) (p : Path) : Bool :=
  match fs.entry p with
  | .ok (.file _) => true
  | _ => false

/-- The path stands for a directory. -/
def isDirectory (fs : FileSystem) (p : Path) : Bool :=
  match fs.entry p with
  | .ok (.directory _) => true
  | _ => false

/-! ## Changes -/

/-- The names of a place that need not be there. Links are followed, and
names that are missing are taken as they stand. -/
def placeOf (fs : FileSystem) (p : Path) : Except IoError (List String) :=
  fs.follow .making p

/-- The file system with an entry at a place, if there can be one. -/
def place (fs : FileSystem) (e : Entry) : Except IoError (List String) → FileSystem
  | .ok names => { fs with root := Entry.put e fs.root names }
  | .error _ => fs

/-- The file system with a file at a place. A directory stays what it is. -/
def write (fs : FileSystem) (p : Path) (bytes : List UInt8) : FileSystem :=
  if fs.isDirectory p then fs else fs.place (.file bytes) (fs.placeOf p)

/-- The file system with a directory at a place. A file stays what it is. -/
def makeDirectory (fs : FileSystem) (p : Path) : FileSystem :=
  if fs.isPresent p then fs else fs.place (.directory []) (fs.placeOf p)

/-- The file system with a link at a place. The links above it are followed. -/
def link (fs : FileSystem) (p : Path) (target : String) : FileSystem :=
  fs.place (.link target)
    ((fs.placeOf (p.parent?.getD ⟨"/"⟩)).map (· ++ p.fileName?.toList))

/-- The file system without what stands at a place. A link goes, and not what
it leads to. -/
def remove (fs : FileSystem) (p : Path) : FileSystem :=
  match fs.locate (p.parent?.getD ⟨"/"⟩), p.fileName? with
  | .ok above, some name => { fs with root := fs.root.erase (above ++ [name]) }
  | _, _ => fs

end FileSystem

end CompileCommands
