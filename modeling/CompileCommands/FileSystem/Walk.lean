-- Walks. A walk follows the pieces of a path from one name to the next, and
-- the links that it comes to. It ends for the reasons for which a disk would
-- refuse the path.
import CompileCommands.FileSystem.Entry
import CompileCommands.Path

namespace CompileCommands

/-! ## Failures -/

/-- Why a lookup is refused. -/
inductive IoError
  | notFound
  | notDirectory
  | isDirectory
  | nameTooLong
  | tooManyLinks
  /-- No path holds the character zero. -/
  | zeroCharacter
  deriving DecidableEq, Repr

/-- The message of a refusal, as the operating system gives it. -/
def IoError.message : IoError → String
  | .notFound => "No such file or directory (os error 2)"
  | .notDirectory => "Not a directory (os error 20)"
  | .isDirectory => "Is a directory (os error 21)"
  | .nameTooLong => "File name too long (os error 36)"
  | .tooManyLinks => "Too many levels of symbolic links (os error 40)"
  | .zeroCharacter => "file name contained an unexpected NUL byte"

namespace FileSystem

/-! ## Bounds -/

/-- The longest name of an entry, in bytes. -/
def maxName : Nat := 255

/-- The longest text of a path, in bytes. -/
def maxPath : Nat := 4095

/-- The most links that one lookup follows. -/
def maxLinks : Nat := 40

/-- The directory from which the pieces of a path are followed, innermost name
first. A path that starts with a slash starts at the root. -/
def startOf (text : String) (here : List String) : List String :=
  if Text.startsWith text "/" then [] else here

/-- The path of a list of names from the root down. -/
def pathOf (names : List String) : Path := ⟨"/" ++ Path.joinPieces names⟩

/-! ## Manners -/

/-- How a walk goes, and what bounds it. -/
structure Manner where
  /-- The longest text that is given, in bytes. -/
  longestText : Option Nat
  /-- The longest path of a place on the way, in bytes. -/
  longestPlace : Option Nat
  /-- A missing name stands for a place that is yet to be made. -/
  makes : Bool

namespace Manner

/-- What is opened or asked about is given by one text. -/
def whole : Manner := ⟨some maxPath, none, false⟩

/-- A place is found one name after another, so that a bound holds for each
place on the way, and none for the text that is given. -/
def stepwise : Manner := ⟨none, some maxPath, false⟩

/-- A place is made if it is missing. -/
def making : Manner := ⟨none, none, true⟩

/-- The size is within a bound, if there is one. -/
def within (bound : Option Nat) (size : Nat) : Bool :=
  match bound with
  | none => true
  | some longest => size ≤ longest

/-- A place on the way is within the bound. What has to be a directory is
asked for with a slash behind it. -/
def reaches (m : Manner) (place : List String) (isDirectory : Bool) : Bool :=
  within m.longestPlace
    ((pathOf place.reverse).text.utf8ByteSize + if isDirectory then 1 else 0)

end Manner

/-! ## Steps -/

/-- The pieces that follow ask for a directory: they end in a slash, or in
a dot, or go up. -/
def asksDirectory (pieces : List String) : Bool :=
  match pieces.dropWhile (fun piece => piece == "" || piece == ".") with
  | [] => !pieces.isEmpty
  | piece :: _ => piece == ".."

/-- Where the pieces of a path lead when nothing stands in the way, innermost
name first. -/
def steps (here : List String) : List String → List String
  | [] => here
  | piece :: rest =>
    if piece = "" ∨ piece = "." then steps here rest
    else if piece = ".." then steps (here.drop 1) rest
    else steps (piece :: here) rest

/-- Follows the pieces of a path from a place, innermost name first. What to
do at a link is up to `atLink`, which is given the place to start from and the
pieces that are left. -/
def walkWith (m : Manner) (root : Entry)
    (atLink : List String → List String → Except IoError (List String))
    (here : List String) : List String → Except IoError (List String)
  | [] => .ok here
  | piece :: rest =>
    match root.at? here.reverse with
    | some (.directory entries) =>
      if piece = "" ∨ piece = "." then walkWith m root atLink here rest
      else if piece = ".." then walkWith m root atLink (here.drop 1) rest
      else if maxName < piece.utf8ByteSize then .error .nameTooLong
      else match entries.lookup piece with
        | none => if m.makes then .ok (steps (piece :: here) rest) else .error .notFound
        | some (.link target) =>
          if m.reaches (piece :: here) false then
            atLink (startOf target here) (Path.pieces ⟨target⟩ ++ rest)
          else .error .nameTooLong
        | some _ =>
          if m.reaches (piece :: here) (asksDirectory rest) then
            walkWith m root atLink (piece :: here) rest
          else .error .nameTooLong
    | _ => .error .notDirectory

/-- Follows the pieces of a path, and at most `links` links. -/
def walk (m : Manner) (root : Entry) (links : Nat) :
    List String → List String → Except IoError (List String) :=
  match links with
  | 0 => walkWith m root (fun _ _ => .error .tooManyLinks)
  | links + 1 => walkWith m root (walk m root links)

end FileSystem

end CompileCommands
