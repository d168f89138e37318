import QueryForest.Text.Hex

set_option autoImplicit false

/-!
# Message digests

The digest MD5 of RFC 1321, used as a short name for a text. A message is padded to whole blocks
of sixteen words, and each block mixes its words into four words of state in 64 steps.
-/

namespace QueryForest.Digest

/-- The constants of the steps: the first 32 bits of the fraction of `|sin (i + 1)|`. -/
def sineTable : Array UInt32 :=
  #[0xd76aa478, 0xe8c7b756, 0x242070db, 0xc1bdceee, 0xf57c0faf, 0x4787c62a,
    0xa8304613, 0xfd469501, 0x698098d8, 0x8b44f7af, 0xffff5bb1, 0x895cd7be,
    0x6b901122, 0xfd987193, 0xa679438e, 0x49b40821, 0xf61e2562, 0xc040b340,
    0x265e5a51, 0xe9b6c7aa, 0xd62f105d, 0x02441453, 0xd8a1e681, 0xe7d3fbc8,
    0x21e1cde6, 0xc33707d6, 0xf4d50d87, 0x455a14ed, 0xa9e3e905, 0xfcefa3f8,
    0x676f02d9, 0x8d2a4c8a, 0xfffa3942, 0x8771f681, 0x6d9d6122, 0xfde5380c,
    0xa4beea44, 0x4bdecfa9, 0xf6bb4b60, 0xbebfbc70, 0x289b7ec6, 0xeaa127fa,
    0xd4ef3085, 0x04881d05, 0xd9d4d039, 0xe6db99e5, 0x1fa27cf8, 0xc4ac5665,
    0xf4292244, 0x432aff97, 0xab9423a7, 0xfc93a039, 0x655b59c3, 0x8f0ccc92,
    0xffeff47d, 0x85845dd1, 0x6fa87e4f, 0xfe2ce6e0, 0xa3014314, 0x4e0811a1,
    0xf7537e82, 0xbd3af235, 0x2ad7d2bb, 0xeb86d391]

/-- The rotations of the four steps that each round repeats. -/
def rotations : Array UInt32 := #[7, 12, 17, 22, 5, 9, 14, 20, 4, 11, 16, 23, 6, 10, 15, 21]

/-- The four words that a digest is made of. -/
structure State where
  a : UInt32
  b : UInt32
  c : UInt32
  d : UInt32
  deriving DecidableEq

def State.initial : State := ⟨0x67452301, 0xefcdab89, 0x98badcfe, 0x10325476⟩

def rotateLeft (x amount : UInt32) : UInt32 := (x <<< amount) ||| (x >>> (32 - amount))

/-- One step of the compression of a block. -/
def step (block : Array UInt32) (s : State) (i : Nat) : State :=
  let round := i / 16
  let (mixed, index) :=
    if round = 0 then ((s.b &&& s.c) ||| (~~~s.b &&& s.d), i)
    else if round = 1 then ((s.d &&& s.b) ||| (~~~s.d &&& s.c), (5 * i + 1) % 16)
    else if round = 2 then (s.b ^^^ s.c ^^^ s.d, (3 * i + 5) % 16)
    else (s.c ^^^ (s.b ||| ~~~s.d), (7 * i) % 16)
  let sum := s.a + mixed + sineTable.getD i 0 + block.getD index 0
  ⟨s.d, s.b + rotateLeft sum (rotations.getD (4 * round + i % 4) 0), s.b, s.c⟩

/-- Mixes one block into the state. -/
def compress (s : State) (block : Array UInt32) : State :=
  let t := (List.range 64).foldl (step block) s
  ⟨s.a + t.a, s.b + t.b, s.c + t.c, s.d + t.d⟩

/-- The `width` bytes of a number, the lowest first. -/
def littleEndian (width n : Nat) : List UInt8 :=
  (List.range width).map fun i => UInt8.ofNat (n / Nat.pow 256 i)

/-- A message with its padding: the byte `0x80`, zeros, and the length of the message in bits. -/
def padded (message : List UInt8) : List UInt8 :=
  let zeros := (119 - message.length % 64) % 64
  message ++ 0x80 :: List.replicate zeros 0 ++ littleEndian 8 (8 * message.length)

/-- The blocks of a padded message, as words. -/
def blocks (bytes : Array UInt8) : List (Array UInt32) :=
  (List.range (bytes.size / 64)).map fun k => (Array.range 16).map fun j =>
    let byte (i : Nat) : UInt32 := (bytes.getD (64 * k + 4 * j + i) 0).toUInt32
    byte 0 ||| byte 1 <<< 8 ||| byte 2 <<< 16 ||| byte 3 <<< 24

/-- The digest of a message. -/
def md5 (message : List UInt8) : List UInt8 :=
  let s := (blocks (padded message).toArray).foldl compress State.initial
  [s.a, s.b, s.c, s.d].flatMap fun w => littleEndian 4 w.toNat

/-- The digest of a text in UTF-8, in hexadecimal. -/
def md5Text (s : String) : String := Text.hexBytes (md5 s.toUTF8.toList)

end QueryForest.Digest
