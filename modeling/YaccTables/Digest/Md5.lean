import YaccTables.Bytes

/-!
# The MD5 digest

Text is padded to blocks of 64 bytes, and each block is mixed into four words of 32 bits in four
rounds of sixteen steps.
-/

namespace YaccTables.Md5

/-- The four words that a digest is made of. -/
structure State where
  a : UInt32
  b : UInt32
  c : UInt32
  d : UInt32
  deriving DecidableEq, Repr

/-- The words before any block. -/
def initial : State := ⟨0x67452301, 0xefcdab89, 0x98badcfe, 0x10325476⟩

/-- The constant of each step: the first 32 bits of the fraction of a sine. -/
def sines : List UInt32 := [
    0xd76aa478, 0xe8c7b756, 0x242070db, 0xc1bdceee, 0xf57c0faf, 0x4787c62a,
    0xa8304613, 0xfd469501, 0x698098d8, 0x8b44f7af, 0xffff5bb1, 0x895cd7be,
    0x6b901122, 0xfd987193, 0xa679438e, 0x49b40821, 0xf61e2562, 0xc040b340,
    0x265e5a51, 0xe9b6c7aa, 0xd62f105d, 0x02441453, 0xd8a1e681, 0xe7d3fbc8,
    0x21e1cde6, 0xc33707d6, 0xf4d50d87, 0x455a14ed, 0xa9e3e905, 0xfcefa3f8,
    0x676f02d9, 0x8d2a4c8a, 0xfffa3942, 0x8771f681, 0x6d9d6122, 0xfde5380c,
    0xa4beea44, 0x4bdecfa9, 0xf6bb4b60, 0xbebfbc70, 0x289b7ec6, 0xeaa127fa,
    0xd4ef3085, 0x04881d05, 0xd9d4d039, 0xe6db99e5, 0x1fa27cf8, 0xc4ac5665,
    0xf4292244, 0x432aff97, 0xab9423a7, 0xfc93a039, 0x655b59c3, 0x8f0ccc92,
    0xffeff47d, 0x85845dd1, 0x6fa87e4f, 0xfe2ce6e0, 0xa3014314, 0x4e0811a1,
    0xf7537e82, 0xbd3af235, 0x2ad7d2bb, 0xeb86d391]

/-- The rotations of the four rounds; the steps of a round take them in turn. -/
def rotations : List (List UInt32) :=
  [[7, 12, 17, 22], [5, 9, 14, 20], [4, 11, 16, 23], [6, 10, 15, 21]]

/-- Rotates a word to the left. -/
def rotate (x n : UInt32) : UInt32 := (x <<< n) ||| (x >>> (32 - n))

/-- The little-endian word of the first four bytes. -/
def word (bytes : Bytes) : UInt32 :=
  (bytes.take 4).foldr (fun b acc => (acc <<< 8) ||| b.toUInt32) 0

/-- The four bytes of a word, the lowest first. -/
def wordBytes (x : UInt32) : Bytes :=
  [x.toUInt8, (x >>> 8).toUInt8, (x >>> 16).toUInt8, (x >>> 24).toUInt8]

/-- What a step mixes in of three words, and which word of the block it takes. -/
def mix (s : State) (i : Nat) : UInt32 × Nat :=
  match i / 16 with
  | 0 => ((s.b &&& s.c) ||| (~~~s.b &&& s.d), i)
  | 1 => ((s.d &&& s.b) ||| (~~~s.d &&& s.c), (5 * i + 1) % 16)
  | 2 => (s.b ^^^ s.c ^^^ s.d, (3 * i + 5) % 16)
  | _ => (s.c ^^^ (s.b ||| ~~~s.d), (7 * i) % 16)

/-- One step with a constant. -/
def step (block : List UInt32) (s : State) (constant : UInt32 × Nat) : State :=
  let (sine, i) := constant
  let (f, g) := mix s i
  let rotation := ((rotations[i / 16]?.getD [])[i % 4]?).getD 0
  ⟨s.d, s.b + rotate (s.a + f + sine + block[g]?.getD 0) rotation, s.b, s.c⟩

/-- The state after a block of 64 bytes. -/
def compress (s : State) (bytes : Bytes) : State :=
  let block := (List.range 16).map fun i => word (bytes.drop (4 * i))
  let t := sines.zipIdx.foldl (step block) s
  ⟨s.a + t.a, s.b + t.b, s.c + t.c, s.d + t.d⟩

/-- The lowest eight bytes of a number, the lowest first. -/
def lengthBytes (n : Nat) : Bytes := (List.range 8).map fun i => UInt8.ofNat (n >>> (8 * i))

/-- Text filled up with a one bit, zeros and its length in bits to whole blocks. -/
def pad (text : Bytes) : Bytes :=
  let n := text.length
  text ++ [0x80] ++ List.replicate ((55 + 64 - n % 64) % 64) 0 ++ lengthBytes (8 * n)

/-- The digest of a text, sixteen bytes. -/
def digest (text : Bytes) : Bytes :=
  let padded := pad text
  let s := (List.range (padded.length / 64)).foldl
    (fun s i => compress s (padded.drop (64 * i))) initial
  wordBytes s.a ++ wordBytes s.b ++ wordBytes s.c ++ wordBytes s.d

end YaccTables.Md5
