-- Text as a list of its characters. The commands of a database, its flags
-- and its paths are all read this way, so that what is cut off a text and
-- what is left of it can be stated on lists.

namespace CompileCommands.Text

/-! ## Classes of characters -/

/-- The blank characters: those with the Unicode property `White_Space`. -/
def isBlank (c : Char) : Bool :=
  let n := c.toNat
  (0x09 ≤ n && n ≤ 0x0D) || n == 0x20 || n == 0x85 || n == 0xA0 || n == 0x1680 ||
    (0x2000 ≤ n && n ≤ 0x200A) || n == 0x2028 || n == 0x2029 || n == 0x202F ||
    n == 0x205F || n == 0x3000

/-- The two characters that separate the names of a path, on any host. -/
def isSeparator (c : Char) : Bool := c == '/' || c == '\\'

/-! ## Starts, ends and parts -/

/-- `s` starts with `lead`. -/
def startsWith (s lead : String) : Bool := lead.toList.isPrefixOf s.toList

/-- `s` ends with `tail`. -/
def endsWith (s tail : String) : Bool := tail.toList.isSuffixOf s.toList

/-- `needle` stands somewhere in the list. -/
def occursIn (needle : List Char) : List Char → Bool
  | [] => needle.isEmpty
  | c :: cs => needle.isPrefixOf (c :: cs) || occursIn needle cs

/-- `needle` stands somewhere in `s`. -/
def contains (s needle : String) : Bool := occursIn needle.toList s.toList

/-- What follows `lead` in `s`, if `s` starts with it. -/
def after? (s lead : String) : Option String :=
  if startsWith s lead then some (String.ofList (s.toList.drop lead.toList.length)) else none

/-- `s` without `tail` at its end, or `s` itself if it does not end so. -/
def withoutEnd (s tail : String) : String :=
  if endsWith s tail then
    String.ofList (s.toList.take (s.toList.length - tail.toList.length))
  else s

/-- The text before the first `mark`, and the text after it if there is one. -/
def cutAt (mark : Char) (s : String) : String × Option String :=
  match s.toList.dropWhile (· != mark) with
  | [] => (s, none)
  | _ :: rest => (String.ofList (s.toList.takeWhile (· != mark)), some (String.ofList rest))

/-! ## Pieces -/

/-- The pieces between the marked characters. There is always at least one. -/
def pieces (isMark : Char → Bool) : List Char → List (List Char)
  | [] => [[]]
  | c :: cs =>
    if isMark c then [] :: pieces isMark cs
    else match pieces isMark cs with
      | [] => [[c]]
      | p :: ps => (c :: p) :: ps

theorem pieces_ne_nil (isMark : Char → Bool) (cs : List Char) : pieces isMark cs ≠ [] := by
  cases cs with
  | nil => simp [pieces]
  | cons c cs =>
    unfold pieces
    split
    · simp
    · split <;> simp

/-- The piece after the last marked character, or all of it if there is none. -/
def lastPiece (isMark : Char → Bool) (cs : List Char) : List Char :=
  (cs.reverse.takeWhile (fun c => !isMark c)).reverse

/-! ## Case and blanks -/

/-- The text with the letters `A` to `Z` made small. No other letter changes. -/
def lower (s : String) : String := String.ofList (s.toList.map Char.toLower)

/-- Equal up to the case of the letters `A` to `Z`. -/
def sameLetters (a b : String) : Bool := lower a == lower b

/-- The text without the blanks at its two ends. -/
def trim (s : String) : String :=
  String.ofList ((s.toList.dropWhile isBlank).reverse.dropWhile isBlank).reverse

/-- The pieces between newlines. -/
def lines (s : String) : List String := (pieces (· == '\n') s.toList).map String.ofList

end CompileCommands.Text
