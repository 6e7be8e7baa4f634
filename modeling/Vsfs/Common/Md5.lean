import Vsfs.Common.Path

/-!
# MD5

The digest behind `PathUtil::path_to_hash`, for running the model on real paths. Nothing
is proved about it: the servers only rely on its being a function.
-/

namespace Vsfs.Md5

/-- `⌊2 ^ 32 * |sin (i + 1)|⌋` -/
def sines : List Nat :=
  [0xd76aa478, 0xe8c7b756, 0x242070db, 0xc1bdceee, 0xf57c0faf, 0x4787c62a, 0xa8304613, 0xfd469501,
   0x698098d8, 0x8b44f7af, 0xffff5bb1, 0x895cd7be, 0x6b901122, 0xfd987193, 0xa679438e, 0x49b40821,
   0xf61e2562, 0xc040b340, 0x265e5a51, 0xe9b6c7aa, 0xd62f105d, 0x02441453, 0xd8a1e681, 0xe7d3fbc8,
   0x21e1cde6, 0xc33707d6, 0xf4d50d87, 0x455a14ed, 0xa9e3e905, 0xfcefa3f8, 0x676f02d9, 0x8d2a4c8a,
   0xfffa3942, 0x8771f681, 0x6d9d6122, 0xfde5380c, 0xa4beea44, 0x4bdecfa9, 0xf6bb4b60, 0xbebfbc70,
   0x289b7ec6, 0xeaa127fa, 0xd4ef3085, 0x04881d05, 0xd9d4d039, 0xe6db99e5, 0x1fa27cf8, 0xc4ac5665,
   0xf4292244, 0x432aff97, 0xab9423a7, 0xfc93a039, 0x655b59c3, 0x8f0ccc92, 0xffeff47d, 0x85845dd1,
   0x6fa87e4f, 0xfe2ce6e0, 0xa3014314, 0x4e0811a1, 0xf7537e82, 0xbd3af235, 0x2ad7d2bb, 0xeb86d391]

/-- The left rotation of round `i`. -/
def rotation (i : Nat) : Nat :=
  ([[7, 12, 17, 22], [5, 9, 14, 20], [4, 11, 16, 23], [6, 10, 15, 21]][i / 16]!)[i % 4]!

structure State where
  a : BitVec 32
  b : BitVec 32
  c : BitVec 32
  d : BitVec 32
  deriving DecidableEq, Repr

def start : State := ⟨0x67452301#32, 0xefcdab89#32, 0x98badcfe#32, 0x10325476#32⟩

/-- Round `i` on a block of sixteen words. -/
def round (block : List (BitVec 32)) (s : State) (i : Nat) (sine : Nat) : State :=
  let (f, g) :=
    match i / 16 with
    | 0 => ((s.b &&& s.c) ||| (~~~s.b &&& s.d), i)
    | 1 => ((s.d &&& s.b) ||| (~~~s.d &&& s.c), (5 * i + 1) % 16)
    | 2 => (s.b ^^^ s.c ^^^ s.d, (3 * i + 5) % 16)
    | _ => (s.c ^^^ (s.b ||| ~~~s.d), 7 * i % 16)
  let sum := f + s.a + BitVec.ofNat 32 sine + block.getD g 0
  ⟨s.d, s.b + sum.rotateLeft (rotation i), s.b, s.c⟩

def rounds (block : List (BitVec 32)) : State → Nat → List Nat → State
  | s, _, [] => s
  | s, i, sine :: rest => rounds block (round block s i sine) (i + 1) rest

def compress (s : State) (block : List (BitVec 32)) : State :=
  let r := rounds block s 0 sines
  ⟨s.a + r.a, s.b + r.b, s.c + r.c, s.d + r.d⟩

/-- Four bytes, least significant first. -/
def words : List Nat → List (BitVec 32)
  | w :: x :: y :: z :: rest =>
    BitVec.ofNat 32 (w + 256 * x + 256 ^ 2 * y + 256 ^ 3 * z) :: words rest
  | _ => []

/-- The message with its padding and its length in bits. -/
def padded (s : Str) : List Nat :=
  let bytes := s.map Char.toNat
  let zeros := (119 - bytes.length % 64) % 64
  bytes ++ 0x80 :: List.replicate zeros 0 ++
    (List.range 8).map (fun i => 8 * bytes.length / 256 ^ i % 256)

def digest (s : Str) : State :=
  let message := words (padded s)
  (List.range (message.length / 16)).foldl
    (fun state i => compress state ((message.drop (16 * i)).take 16)) start

/-- The first eight bytes of the digest, copied into an integer. -/
@[reducible] def pathHash : PathHash where
  pathToHash path := (digest path).b ++ (digest path).a

end Vsfs.Md5
