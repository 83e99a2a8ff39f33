-- The records in the text of a database. The text is not read as one value,
-- for such files are often cut off or mended by hand. From an opening brace,
-- the text up to a closing brace is tried as one record. If it ends too
-- early, the text up to the next closing brace is tried; for any other fault
-- the opening brace is given up and the next one is tried. So a broken
-- record costs no more than itself.
import CompileCommands.Record.Reader

namespace CompileCommands.Database

/-! ## Braces -/

/-- The places of a byte in a text whose first byte stands at `offset`. -/
def positions (b : UInt8) (offset : Nat) : List UInt8 → List Nat
  | [] => []
  | x :: rest =>
    if x = b then offset :: positions b (offset + 1) rest else positions b (offset + 1) rest

/-- The places of the opening braces. -/
def openings (bytes : List UInt8) : List Nat := positions 0x7B 0 bytes

/-- The places of the closing braces. -/
def closings (bytes : List UInt8) : List Nat := positions 0x7D 0 bytes

/-- The text from one place to another, both of them included. -/
def slice (bytes : List UInt8) (first last : Nat) : List UInt8 :=
  (bytes.drop first).take (last + 1 - first)

/-! ## One opening brace -/

/-- What becomes of an opening brace. -/
inductive Verdict
  /-- A record ends at the closing brace at `last`. -/
  | taken (last : Nat) (draft : Draft)
  /-- The text up to the closing brace at `last` is no record, and a longer
  text is not tried. -/
  | malformed (last : Nat) (fault : Json.Fault)
  deriving DecidableEq, Repr

/-- Tries the closing braces in turn, for as long as the text ends too early.
Without a closing brace there is nothing to try. -/
def settle (bytes : List UInt8) (first : Nat) : List Nat → Option Verdict
  | [] => none
  | last :: more =>
    match Record.decode (slice bytes first last) with
    | .ok draft => some (.taken last draft)
    | .error fault =>
      if fault.cause.isEnd && !more.isEmpty then settle bytes first more
      else some (.malformed last fault)

/-! ## All opening braces -/

/-- What was found at an opening brace. -/
inductive Finding
  | record (first : Nat) (draft : Draft)
  /-- The message says why the text is no record. -/
  | malformed (first : Nat) (message : String)
  deriving DecidableEq, Repr

/-- Goes through the opening braces from `free` on. The braces within a record
are passed over. Reading ends at the first opening brace that no closing brace
follows. -/
def extractFrom (bytes : List UInt8) (closings : List Nat) (free : Nat) :
    List Nat → List Finding
  | [] => []
  | first :: more =>
    if first < free then extractFrom bytes closings free more
    else match settle bytes first (closings.filter (first < ·)) with
      | none => []
      | some (.taken last draft) =>
        .record first draft :: extractFrom bytes closings (last + 1) more
      | some (.malformed last fault) =>
        .malformed first (fault.message (slice bytes first last)) ::
          extractFrom bytes closings free more

/-- The findings in a text, in the order of their opening braces. -/
def extract (bytes : List UInt8) : List Finding :=
  extractFrom bytes (closings bytes) 0 (openings bytes)

end CompileCommands.Database
