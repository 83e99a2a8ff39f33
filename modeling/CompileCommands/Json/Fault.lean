-- Why a text is no JSON value of the wanted shape, and where. The words for
-- a fault are all here; the readers know only its cause.
import CompileCommands.Text.Quoted

namespace CompileCommands.Json

/-! ## Causes -/

/-- A value of the wrong type. -/
inductive Found
  | null
  | boolean (value : Bool)
  | integer (value : Int)
  /-- A number with a fraction or an exponent, as it is shown. -/
  | decimal (text : String)
  | text (value : String)
  | list
  | object
  deriving DecidableEq, Repr

/-- The type that was wanted. -/
inductive Wanted
  | text
  | list
  deriving DecidableEq, Repr

/-- The cause of a fault. -/
inductive Cause
  /-- The text ends inside a list, an object, a string or a value. -/
  | endOfList
  | endOfObject
  | endOfText
  | endOfValue
  | expectedColon
  | expectedListEnd
  | expectedObjectEnd
  | expectedWord
  | expectedValue
  | invalidEscape
  | invalidNumber
  | numberOutOfRange
  | invalidCodePoint
  | controlCharacter
  | keyNotText
  | loneSurrogate
  | unfinishedPair
  | trailingComma
  | trailingText
  | repeatedKey (key : String)
  | wrongType (found : Found) (wanted : Wanted)
  deriving DecidableEq, Repr

namespace Cause

/-- The text ended too early. A longer text may be read where this one is not. -/
def isEnd : Cause → Bool
  | .endOfList | .endOfObject | .endOfText | .endOfValue => true
  | _ => false

end Cause

/-! ## Words -/

/-- A value in the words of a message. -/
def Found.title : Found → String
  | .null => "null"
  | .boolean true => "boolean `true`"
  | .boolean false => "boolean `false`"
  | .integer n => "integer `" ++ toString n ++ "`"
  | .decimal s => "floating point `" ++ s ++ "`"
  | .text s => "string " ++ Text.quoted s
  | .list => "sequence"
  | .object => "map"

/-- A type in the words of a message. -/
def Wanted.title : Wanted → String
  | .text => "a string"
  | .list => "a sequence"

/-- The message of a cause. -/
def Cause.message : Cause → String
  | .endOfList => "EOF while parsing a list"
  | .endOfObject => "EOF while parsing an object"
  | .endOfText => "EOF while parsing a string"
  | .endOfValue => "EOF while parsing a value"
  | .expectedColon => "expected `:`"
  | .expectedListEnd => "expected `,` or `]`"
  | .expectedObjectEnd => "expected `,` or `\x7d`"
  | .expectedWord => "expected ident"
  | .expectedValue => "expected value"
  | .invalidEscape => "invalid escape"
  | .invalidNumber => "invalid number"
  | .numberOutOfRange => "number out of range"
  | .invalidCodePoint => "invalid unicode code point"
  | .controlCharacter =>
    "control character (\\u0000-\\u001F) found while parsing a string"
  | .keyNotText => "key must be a string"
  | .loneSurrogate => "lone leading surrogate in hex escape"
  | .unfinishedPair => "unexpected end of hex escape"
  | .trailingComma => "trailing comma"
  | .trailingText => "trailing characters"
  | .repeatedKey key => "duplicate field `" ++ key ++ "`"
  | .wrongType found wanted => "invalid type: " ++ found.title ++ ", expected " ++ wanted.title

/-! ## Places -/

/-- A cause, and how many bytes stand before the place it is told of. -/
structure Fault where
  cause : Cause
  offset : Nat
  deriving DecidableEq, Repr

namespace Fault

/-- The line of the end of some bytes, counted from one. -/
def line (bytes : List UInt8) : Nat := bytes.count 0x0A + 1

/-- The number of bytes in the last line of some bytes. -/
def column (bytes : List UInt8) : Nat := (bytes.reverse.takeWhile (· != 0x0A)).length

/-- The message of a fault of a text, with its line and its column. -/
def message (f : Fault) (text : List UInt8) : String :=
  let before := text.take f.offset
  f.cause.message ++ " at line " ++ toString (line before) ++
    " column " ++ toString (column before)

end Fault

end CompileCommands.Json
