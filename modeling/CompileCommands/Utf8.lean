-- Characters as bytes. The longest decodable start of a list of bytes is
-- read; what is left of the bytes tells where decoding ends. Where all bytes
-- have to be read, each stretch that does not decode is taken as one character.

namespace CompileCommands.Utf8

/-- A byte that follows the first byte of a character. -/
def isFollower (b : UInt8) : Bool := 0x80 ≤ b && b < 0xC0

/-- The six bits of a follower. -/
def followerBits (b : UInt8) : Nat := b.toNat - 0x80

/-- The character with this number, if it is at least `least` and no half of
a surrogate pair. -/
def charAt? (number least : Nat) : Option Char :=
  if least ≤ number && number < 0x110000 && !(0xD800 ≤ number && number < 0xE000) then
    some (Char.ofNat number)
  else none

/-- The character of two bytes. -/
def char2? (a b : UInt8) : Option Char :=
  if 0xC0 ≤ a && a < 0xE0 && isFollower b then
    charAt? ((a.toNat - 0xC0) * 0x40 + followerBits b) 0x80
  else none

/-- The character of three bytes. -/
def char3? (a b c : UInt8) : Option Char :=
  if 0xE0 ≤ a && a < 0xF0 && isFollower b && isFollower c then
    charAt? (((a.toNat - 0xE0) * 0x40 + followerBits b) * 0x40 + followerBits c) 0x800
  else none

/-- The character of four bytes. -/
def char4? (a b c d : UInt8) : Option Char :=
  if 0xF0 ≤ a && a < 0xF8 && isFollower b && isFollower c && isFollower d then
    charAt? ((((a.toNat - 0xF0) * 0x40 + followerBits b) * 0x40 + followerBits c) * 0x40 +
      followerBits d) 0x10000
  else none

/-- The characters of the longest start that decodes, and the bytes after it. -/
def decodeStart : List UInt8 → List Char × List UInt8
  | [] => ([], [])
  | a :: rest =>
    if a < 0x80 then
      let (cs, left) := decodeStart rest
      (Char.ofNat a.toNat :: cs, left)
    else match rest with
      | [] => ([], [a])
      | b :: rest =>
        match char2? a b with
        | some ch =>
          let (cs, left) := decodeStart rest
          (ch :: cs, left)
        | none => match rest with
          | [] => ([], [a, b])
          | c :: rest =>
            match char3? a b c with
            | some ch =>
              let (cs, left) := decodeStart rest
              (ch :: cs, left)
            | none => match rest with
              | [] => ([], [a, b, c])
              | d :: rest =>
                match char4? a b c d with
                | some ch =>
                  let (cs, left) := decodeStart rest
                  (ch :: cs, left)
                | none => ([], a :: b :: c :: d :: rest)

/-- The characters of the bytes, if all of them decode. -/
def decode? (bytes : List UInt8) : Option (List Char) :=
  match decodeStart bytes with
  | (cs, []) => some cs
  | _ => none

/-- The text of the bytes, if all of them decode. -/
def text? (bytes : List UInt8) : Option String := (decode? bytes).map String.ofList

/-! ## Bytes that do not decode -/

theorem length_decodeStart_le (bytes : List UInt8) :
    (decodeStart bytes).2.length ≤ bytes.length := by
  fun_induction decodeStart bytes <;> grind

/-- The character that is read where bytes do not decode. -/
def replacement : Char := '\uFFFD'

/-- Two bytes that start a character of three or four bytes. -/
def startsLong (a b : UInt8) : Bool :=
  (char3? a b 0x80).isSome || (char4? a b 0x80 0x80).isSome

/-- The number of bytes that are read as one character where no character
stands: as many as start one, and at least one. -/
def brokenLength : List UInt8 → Nat
  | a :: b :: c :: _ =>
    if (char4? a b 0x80 0x80).isSome && isFollower c then 3 else if startsLong a b then 2 else 1
  | [a, b] => if startsLong a b then 2 else 1
  | _ => 1

theorem brokenLength_pos (bytes : List UInt8) : 0 < brokenLength bytes := by
  unfold brokenLength
  grind

/-- The characters of the bytes, with one character for each stretch that does
not decode. -/
def lossy (bytes : List UInt8) : List Char :=
  match _h : decodeStart bytes with
  | (cs, []) => cs
  | (cs, b :: left) => cs ++ replacement :: lossy ((b :: left).drop (brokenLength (b :: left)))
termination_by bytes.length
decreasing_by
  have hle := length_decodeStart_le bytes
  have hpos := brokenLength_pos (b :: left)
  simp only [_h, List.length_cons, List.length_drop] at hle ⊢
  omega

/-! ## Encoding -/

/-- The bytes of a list of characters. -/
def encode (cs : List Char) : List UInt8 := cs.flatMap String.utf8EncodeChar

/-- The bytes of a text. -/
def ofText (s : String) : List UInt8 := encode s.toList

end CompileCommands.Utf8
