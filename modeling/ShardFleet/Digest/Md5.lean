import ShardFleet.Text.Utf8

/-!
# MD5

The message digest MD5 over byte lists. Only its distribution matters here: keys and ring labels are
spread by it, nothing is secured by it.
-/

namespace ShardFleet.Md5

/-- The four chaining words. -/
structure State where
  a : UInt32
  b : UInt32
  c : UInt32
  d : UInt32

/-- The chaining words before the first block. -/
def initial : State := ⟨0x67452301, 0xefcdab89, 0x98badcfe, 0x10325476⟩

/-- The additive constant of each of the sixty-four steps. -/
def constants : Array UInt32 := #[
  0xd76aa478, 0xe8c7b756, 0x242070db, 0xc1bdceee, 0xf57c0faf, 0x4787c62a, 0xa8304613, 0xfd469501,
  0x698098d8, 0x8b44f7af, 0xffff5bb1, 0x895cd7be, 0x6b901122, 0xfd987193, 0xa679438e, 0x49b40821,
  0xf61e2562, 0xc040b340, 0x265e5a51, 0xe9b6c7aa, 0xd62f105d, 0x02441453, 0xd8a1e681, 0xe7d3fbc8,
  0x21e1cde6, 0xc33707d6, 0xf4d50d87, 0x455a14ed, 0xa9e3e905, 0xfcefa3f8, 0x676f02d9, 0x8d2a4c8a,
  0xfffa3942, 0x8771f681, 0x6d9d6122, 0xfde5380c, 0xa4beea44, 0x4bdecfa9, 0xf6bb4b60, 0xbebfbc70,
  0x289b7ec6, 0xeaa127fa, 0xd4ef3085, 0x04881d05, 0xd9d4d039, 0xe6db99e5, 0x1fa27cf8, 0xc4ac5665,
  0xf4292244, 0x432aff97, 0xab9423a7, 0xfc93a039, 0x655b59c3, 0x8f0ccc92, 0xffeff47d, 0x85845dd1,
  0x6fa87e4f, 0xfe2ce6e0, 0xa3014314, 0x4e0811a1, 0xf7537e82, 0xbd3af235, 0x2ad7d2bb, 0xeb86d391]

/-- The left rotation of step `i`. -/
def shift (i : Nat) : UInt32 :=
  let row : Array UInt32 :=
    if i < 16 then #[7, 12, 17, 22] else if i < 32 then #[5, 9, 14, 20]
    else if i < 48 then #[4, 11, 16, 23] else #[6, 10, 15, 21]
  row.getD (i % 4) 0

/-- The word of the block that step `i` adds. -/
def wordIndex (i : Nat) : Nat :=
  if i < 16 then i else if i < 32 then (5 * i + 1) % 16
  else if i < 48 then (3 * i + 5) % 16 else (7 * i) % 16

/-- The bitwise function of step `i`. -/
def mix (i : Nat) (b c d : UInt32) : UInt32 :=
  if i < 16 then (b &&& c) ||| (~~~b &&& d)
  else if i < 32 then (d &&& b) ||| (~~~d &&& c)
  else if i < 48 then b ^^^ c ^^^ d
  else c ^^^ (b ||| ~~~d)

/-- One step over the block that begins at word `start` of `words`. -/
def step (words : Array UInt32) (start : Nat) (s : State) (i : Nat) : State :=
  let f := mix i s.b s.c s.d + s.a + constants.getD i 0 + words.getD (start + wordIndex i) 0
  let r := shift i
  ⟨s.d, s.b + ((f <<< r) ||| (f >>> (32 - r))), s.b, s.c⟩

/-- One block of sixteen words. -/
def compress (words : Array UInt32) (s : State) (block : Nat) : State :=
  let t := (List.range 64).foldl (step words (16 * block)) s
  ⟨s.a + t.a, s.b + t.b, s.c + t.c, s.d + t.d⟩

/-- The `count` lowest bytes of `n`, least significant first. -/
def littleEndian (count n : Nat) : Bytes :=
  (List.range count).map fun i => UInt8.ofNat (n >>> (8 * i))

/-- The message, a one bit, zeros up to eight bytes short of a whole block, and the message's
length in bits. -/
def pad (m : Bytes) : Bytes :=
  m ++ 0x80 :: List.replicate ((119 - m.length % 64) % 64) 0 ++ littleEndian 8 (8 * m.length)

/-- Bytes taken four at a time, least significant first. -/
def toWords : Bytes → List UInt32
  | a :: b :: c :: d :: rest =>
    (a.toUInt32 ||| b.toUInt32 <<< 8 ||| c.toUInt32 <<< 16 ||| d.toUInt32 <<< 24) :: toWords rest
  | _ => []

/-- The sixteen bytes of the digest. -/
def digest (m : Bytes) : Bytes :=
  let words := (toWords (pad m)).toArray
  let s := (List.range (words.size / 16)).foldl (compress words) initial
  [s.a, s.b, s.c, s.d].flatMap fun w => littleEndian 4 w.toNat

end ShardFleet.Md5
