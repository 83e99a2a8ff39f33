-- Fingerprints. A fingerprint is the XXH3 hash of 128 bits of some bytes, for
-- the seed zero. It tells whether a database has changed since it was read.

namespace CompileCommands

/-- A fingerprint, as two words. -/
structure Fingerprint where
  low : UInt64
  high : UInt64
  deriving DecidableEq, Repr

namespace Fingerprint

/-! ## Words -/

def prime32A : UInt64 := 0x9E3779B1
def prime32B : UInt64 := 0x85EBCA77
def prime32C : UInt64 := 0xC2B2AE3D
def prime64A : UInt64 := 0x9E3779B185EBCA87
def prime64B : UInt64 := 0xC2B2AE3D27D4EB4F
def prime64C : UInt64 := 0x165667B19E3779F9
def prime64D : UInt64 := 0x85EBCA77C2B2AE63
def prime64E : UInt64 := 0x27D4EB2F165667C5
def mixA : UInt64 := 0x165667919E3779F9
def mixB : UInt64 := 0x9FB21C651E98DF25

/-- The byte at a place, or zero behind the end. -/
def byteAt (data : ByteArray) (i : Nat) : UInt64 :=
  if h : i < data.size then data[i].toUInt64 else 0

/-- The word of four bytes at a place, lowest byte first. -/
def word32 (data : ByteArray) (i : Nat) : UInt64 :=
  byteAt data i ||| (byteAt data (i + 1) <<< 8) ||| (byteAt data (i + 2) <<< 16) |||
    (byteAt data (i + 3) <<< 24)

/-- The word of eight bytes at a place, lowest byte first. -/
def word64 (data : ByteArray) (i : Nat) : UInt64 :=
  word32 data i ||| (word32 data (i + 4) <<< 32)

/-- The lower half of a word. -/
def lowHalf (x : UInt64) : UInt64 := x &&& 0xFFFFFFFF

/-- The word of four bytes with its bytes turned around. -/
def swap32 (x : UInt64) : UInt64 :=
  let byte (n : UInt64) : UInt64 := (x >>> n) &&& 0xFF
  (byte 0 <<< 24) ||| (byte 8 <<< 16) ||| (byte 16 <<< 8) ||| byte 24

/-- The word of eight bytes with its bytes turned around. -/
def swap64 (x : UInt64) : UInt64 := (swap32 (lowHalf x) <<< 32) ||| swap32 (x >>> 32)

/-- The two words of the product of two words, the low one first. -/
def product (a b : UInt64) : UInt64 × UInt64 :=
  let p := a.toNat * b.toNat
  (p.toUInt64, (p / Nat.pow 2 64).toUInt64)

/-- The two words of a product, folded into one. -/
def foldedProduct (a b : UInt64) : UInt64 :=
  let (low, high) := product a b
  low ^^^ high

/-- A word mixed with its own upper bits. -/
def shiftMix (x : UInt64) (n : UInt64) : UInt64 := x ^^^ (x >>> n)

/-- The last mix of a long input. -/
def avalanche (x : UInt64) : UInt64 := shiftMix (shiftMix x 37 * mixA) 32

/-- The last mix of a very short input. -/
def shortAvalanche (x : UInt64) : UInt64 :=
  shiftMix (shiftMix (shiftMix x 33 * prime64B) 29 * prime64C) 32

/-- The bytes that the input is mixed with. -/
def secret : ByteArray := ⟨#[
  0xb8, 0xfe, 0x6c, 0x39, 0x23, 0xa4, 0x4b, 0xbe, 0x7c, 0x01, 0x81, 0x2c, 0xf7, 0x21, 0xad, 0x1c,
  0xde, 0xd4, 0x6d, 0xe9, 0x83, 0x90, 0x97, 0xdb, 0x72, 0x40, 0xa4, 0xa4, 0xb7, 0xb3, 0x67, 0x1f,
  0xcb, 0x79, 0xe6, 0x4e, 0xcc, 0xc0, 0xe5, 0x78, 0x82, 0x5a, 0xd0, 0x7d, 0xcc, 0xff, 0x72, 0x21,
  0xb8, 0x08, 0x46, 0x74, 0xf7, 0x43, 0x24, 0x8e, 0xe0, 0x35, 0x90, 0xe6, 0x81, 0x3a, 0x26, 0x4c,
  0x3c, 0x28, 0x52, 0xbb, 0x91, 0xc3, 0x00, 0xcb, 0x88, 0xd0, 0x65, 0x8b, 0x1b, 0x53, 0x2e, 0xa3,
  0x71, 0x64, 0x48, 0x97, 0xa2, 0x0d, 0xf9, 0x4e, 0x38, 0x19, 0xef, 0x46, 0xa9, 0xde, 0xac, 0xd8,
  0xa8, 0xfa, 0x76, 0x3f, 0xe3, 0x9c, 0x34, 0x3f, 0xf9, 0xdc, 0xbb, 0xc7, 0xc7, 0x0b, 0x4f, 0x1d,
  0x8a, 0x51, 0xe0, 0x4b, 0xcd, 0xb4, 0x59, 0x31, 0xc8, 0x9f, 0x7e, 0xc9, 0xd9, 0x78, 0x73, 0x64,
  0xea, 0xc5, 0xac, 0x83, 0x34, 0xd3, 0xeb, 0xc3, 0xc5, 0x81, 0xa0, 0xff, 0xfa, 0x13, 0x63, 0xeb,
  0x17, 0x0d, 0xdd, 0x51, 0xb7, 0xf0, 0xda, 0x49, 0xd3, 0x16, 0x55, 0x26, 0x29, 0xd4, 0x68, 0x9e,
  0x2b, 0x16, 0xbe, 0x58, 0x7d, 0x47, 0xa1, 0xfc, 0x8f, 0xf8, 0xb8, 0xd1, 0x7a, 0xd0, 0x31, 0xce,
  0x45, 0xcb, 0x3a, 0x8f, 0x95, 0x16, 0x04, 0x28, 0xaf, 0xd7, 0xfb, 0xca, 0xbb, 0x4b, 0x40, 0x7e]⟩

/-- The word of the secret at a place. -/
def key (i : Nat) : UInt64 := word64 secret i

/-! ## Up to sixteen bytes -/

/-- No bytes at all. -/
def ofNone : Fingerprint :=
  ⟨shortAvalanche (key 64 ^^^ key 72), shortAvalanche (key 80 ^^^ key 88)⟩

/-- One to three bytes. -/
def ofUpTo3 (data : ByteArray) : Fingerprint :=
  let n := data.size
  let low := (byteAt data 0 <<< 16) ||| (byteAt data (n / 2) <<< 24) ||| byteAt data (n - 1) |||
    (n.toUInt64 <<< 8)
  let turned := swap32 low
  let high := lowHalf ((turned <<< 13) ||| (turned >>> 19))
  ⟨shortAvalanche (low ^^^ word32 secret 0 ^^^ word32 secret 4),
    shortAvalanche (high ^^^ word32 secret 8 ^^^ word32 secret 12)⟩

/-- Four to eight bytes. -/
def ofUpTo8 (data : ByteArray) : Fingerprint :=
  let n := data.size
  let input := word32 data 0 + (word32 data (n - 4) <<< 32)
  let keyed := input ^^^ key 16 ^^^ key 24
  let (low, high) := product keyed (prime64A + (n.toUInt64 <<< 2))
  let high := high + (low <<< 1)
  let low := shiftMix (low ^^^ (high >>> 3)) 35
  ⟨shiftMix (low * mixB) 28, avalanche high⟩

/-- Nine to sixteen bytes. -/
def ofUpTo16 (data : ByteArray) : Fingerprint :=
  let n := data.size
  let first := word64 data 0
  let last := word64 data (n - 8)
  let (low, high) := product (first ^^^ last ^^^ key 32 ^^^ key 40) prime64A
  let low := low + ((n - 1).toUInt64 <<< 54)
  let last := last ^^^ key 48 ^^^ key 56
  let high := high + last + lowHalf last * (prime32B - 1)
  let low := low ^^^ swap64 high
  let (low', high') := product low prime64B
  ⟨avalanche low', avalanche (high' + high * prime64B)⟩

/-! ## Up to 240 bytes -/

/-- Sixteen bytes of input, mixed with sixteen bytes of the secret. -/
def mix16 (data : ByteArray) (i s : Nat) : UInt64 :=
  foldedProduct (word64 data i ^^^ key s) (word64 data (i + 8) ^^^ key (s + 8))

/-- Two times sixteen bytes of input, mixed into a pair of words. -/
def mix32 (data : ByteArray) (acc : UInt64 × UInt64) (i j s : Nat) : UInt64 × UInt64 :=
  ((acc.1 + mix16 data i s) ^^^ (word64 data j + word64 data (j + 8)),
    (acc.2 + mix16 data j (s + 16)) ^^^ (word64 data i + word64 data (i + 8)))

/-- The fingerprint of a pair of words. -/
def ofPair (acc : UInt64 × UInt64) (n : Nat) : Fingerprint :=
  let high := acc.1 * prime64A + acc.2 * prime64D + n.toUInt64 * prime64B
  ⟨avalanche (acc.1 + acc.2), 0 - avalanche high⟩

/-- Seventeen to 128 bytes, from the inside to both ends. -/
def ofUpTo128 (data : ByteArray) : Fingerprint :=
  let n := data.size
  let rounds := (n - 1) / 32
  let acc := (List.range (rounds + 1)).reverse.foldl
    (fun acc r => mix32 data acc (16 * r) (n - 16 * r - 16) (32 * r))
    (n.toUInt64 * prime64A, 0)
  ofPair acc n

/-- 129 to 240 bytes, 32 at a time. -/
def ofUpTo240 (data : ByteArray) : Fingerprint :=
  let n := data.size
  let acc := (List.range 4).foldl
    (fun acc r => mix32 data acc (32 * r) (32 * r + 16) (32 * r))
    (n.toUInt64 * prime64A, 0)
  let acc := (List.range (n / 32 - 4)).foldl
    (fun acc r => mix32 data acc (32 * r + 128) (32 * r + 144) (32 * r + 3))
    (avalanche acc.1, avalanche acc.2)
  ofPair (mix32 data acc (n - 16) (n - 32) 103) n

/-! ## More than 240 bytes -/

/-- The words that a long input is mixed into. -/
def startLanes : List UInt64 :=
  [prime32C, prime64A, prime64B, prime64C, prime64D, prime32B, prime64E, prime32A]

/-- Two lanes after sixteen bytes. Each lane takes the word of the other one. -/
def addPair (data : ByteArray) (i s : Nat) (a b : UInt64) : UInt64 × UInt64 :=
  let x := word64 data i
  let y := word64 data (i + 8)
  let kx := x ^^^ key s
  let ky := y ^^^ key (s + 8)
  (a + y + lowHalf kx * (kx >>> 32), b + x + lowHalf ky * (ky >>> 32))

/-- The lanes after a stripe of 64 bytes. -/
def addStripe (data : ByteArray) (i s : Nat) : List UInt64 → List UInt64
  | a :: b :: rest =>
    let (a, b) := addPair data i s a b
    a :: b :: addStripe data (i + 16) (s + 16) rest
  | lanes => lanes

/-- The lanes after `count` stripes from a place on. -/
def addStripes (data : ByteArray) (i count : Nat) (lanes : List UInt64) : List UInt64 :=
  (List.range count).foldl (fun lanes r => addStripe data (i + 64 * r) (8 * r) lanes) lanes

/-- The lanes, mixed after a block. -/
def scramble (s : Nat) : List UInt64 → List UInt64
  | [] => []
  | a :: rest => (shiftMix a 47 ^^^ key s) * prime32A :: scramble (s + 8) rest

/-- The lanes, folded into one word. -/
def mergeLanes (s : Nat) (start : UInt64) : List UInt64 → UInt64
  | a :: b :: rest =>
    mergeLanes (s + 16) (start + foldedProduct (a ^^^ key s) (b ^^^ key (s + 8))) rest
  | _ => avalanche start

/-- More than 240 bytes, in blocks of sixteen stripes. -/
def ofLong (data : ByteArray) : Fingerprint :=
  let n := data.size
  let blocks := (n - 1) / 1024
  let lanes := (List.range blocks).foldl
    (fun lanes r => scramble 128 (addStripes data (1024 * r) 16 lanes)) startLanes
  let lanes := addStripes data (1024 * blocks) ((n - 1 - 1024 * blocks) / 64) lanes
  let lanes := addStripe data (n - 64) 121 lanes
  ⟨mergeLanes 11 (n.toUInt64 * prime64A) lanes,
    mergeLanes 117 (~~~(n.toUInt64 * prime64B)) lanes⟩

/-! ## All inputs -/

/-- The fingerprint of some bytes. -/
def of (bytes : List UInt8) : Fingerprint :=
  let data : ByteArray := ⟨bytes.toArray⟩
  if data.size = 0 then ofNone
  else if data.size ≤ 3 then ofUpTo3 data
  else if data.size ≤ 8 then ofUpTo8 data
  else if data.size ≤ 16 then ofUpTo16 data
  else if data.size ≤ 128 then ofUpTo128 data
  else if data.size ≤ 240 then ofUpTo240 data
  else ofLong data

/-- The bytes of a word, lowest first. -/
def wordBytes (x : UInt64) : List Nat :=
  (List.range 8).map (fun i => ((x >>> (8 * i).toUInt64) &&& 0xFF).toNat)

/-- The sixteen bytes of a fingerprint. -/
def bytes (f : Fingerprint) : List Nat := wordBytes f.low ++ wordBytes f.high

/-- Two hexadecimal digits. -/
def byteText (b : Nat) : String :=
  String.ofList [Nat.digitChar (b / 16), Nat.digitChar (b % 16)]

/-- The fingerprint in hexadecimal digits. -/
def text (f : Fingerprint) : String := String.join (f.bytes.map byteText)

/-- The first two bytes, as a short name. -/
def shortText (f : Fingerprint) : String :=
  "ProjectFileHash(" ++ String.join ((f.bytes.take 2).map byteText) ++ "..)"

end Fingerprint

end CompileCommands
