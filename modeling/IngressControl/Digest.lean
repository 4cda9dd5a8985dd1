import IngressControl.Batch
import IngressControl.Text.Basic

/-! Digests: the MD5 digest of a byte string, its hexadecimal form, and the digest of a collection
of texts, which does not depend on their order. -/

namespace IngressControl.Digest

structure MD5State where
  a : UInt32
  b : UInt32
  c : UInt32
  d : UInt32
deriving DecidableEq, Repr

namespace MD5

def initial : MD5State := ⟨0x67452301, 0xefcdab89, 0x98badcfe, 0x10325476⟩

def sines : Array UInt32 :=
  #[
    0xd76aa478, 0xe8c7b756, 0x242070db, 0xc1bdceee, 0xf57c0faf, 0x4787c62a, 0xa8304613, 0xfd469501,
    0x698098d8, 0x8b44f7af, 0xffff5bb1, 0x895cd7be, 0x6b901122, 0xfd987193, 0xa679438e, 0x49b40821,
    0xf61e2562, 0xc040b340, 0x265e5a51, 0xe9b6c7aa, 0xd62f105d, 0x02441453, 0xd8a1e681, 0xe7d3fbc8,
    0x21e1cde6, 0xc33707d6, 0xf4d50d87, 0x455a14ed, 0xa9e3e905, 0xfcefa3f8, 0x676f02d9, 0x8d2a4c8a,
    0xfffa3942, 0x8771f681, 0x6d9d6122, 0xfde5380c, 0xa4beea44, 0x4bdecfa9, 0xf6bb4b60, 0xbebfbc70,
    0x289b7ec6, 0xeaa127fa, 0xd4ef3085, 0x04881d05, 0xd9d4d039, 0xe6db99e5, 0x1fa27cf8, 0xc4ac5665,
    0xf4292244, 0x432aff97, 0xab9423a7, 0xfc93a039, 0x655b59c3, 0x8f0ccc92, 0xffeff47d, 0x85845dd1,
    0x6fa87e4f, 0xfe2ce6e0, 0xa3014314, 0x4e0811a1, 0xf7537e82, 0xbd3af235, 0x2ad7d2bb, 0xeb86d391]

def rotation (i : Nat) : UInt32 :=
  let row : Array UInt32 := match i / 16 with
    | 0 => #[7, 12, 17, 22]
    | 1 => #[5, 9, 14, 20]
    | 2 => #[4, 11, 16, 23]
    | _ => #[6, 10, 15, 21]
  row.getD (i % 4) 0

def wordIndex (i : Nat) : Nat :=
  match i / 16 with
  | 0 => i % 16
  | 1 => (5 * i + 1) % 16
  | 2 => (3 * i + 5) % 16
  | _ => (7 * i) % 16

def mix (i : Nat) (s : MD5State) : UInt32 :=
  match i / 16 with
  | 0 => (s.b &&& s.c) ||| (~~~s.b &&& s.d)
  | 1 => (s.d &&& s.b) ||| (~~~s.d &&& s.c)
  | 2 => s.b ^^^ s.c ^^^ s.d
  | _ => s.c ^^^ (s.b ||| ~~~s.d)

def rotateLeft (w by' : UInt32) : UInt32 := (w <<< by') ||| (w >>> (32 - by'))

def step (block : Array UInt32) (s : MD5State) (i : Nat) : MD5State :=
  let sum := mix i s + s.a + sines.getD i 0 + block.getD (wordIndex i) 0
  ⟨s.d, s.b + rotateLeft sum (rotation i), s.b, s.c⟩

def compress (s : MD5State) (block : List UInt32) : MD5State :=
  let words := block.toArray
  let r := (List.range 64).foldl (step words) s
  ⟨s.a + r.a, s.b + r.b, s.c + r.c, s.d + r.d⟩

/-- The low bytes of a number, least significant first. -/
def littleEndian : Nat → Nat → List UInt8
  | 0, _ => []
  | k + 1, n => UInt8.ofNat n :: littleEndian k (n / 256)

/-- The bytes that complete a message of the given length to whole blocks: the mark 0x80, zeros, and
the length in bits as eight bytes. -/
def padding (length : Nat) : List UInt8 :=
  0x80 :: (List.replicate ((119 - length % 64) % 64) 0 ++ littleEndian 8 (8 * length))

def words : List UInt8 → List UInt32
  | b₀ :: b₁ :: b₂ :: b₃ :: rest =>
    (b₀.toUInt32 ||| b₁.toUInt32 <<< 8 ||| b₂.toUInt32 <<< 16 ||| b₃.toUInt32 <<< 24) :: words rest
  | _ => []

def digest (message : List UInt8) : List UInt8 :=
  let s := (chunks 16 (words (message ++ padding message.length))).foldl compress initial
  littleEndian 4 s.a.toNat ++ littleEndian 4 s.b.toNat ++ littleEndian 4 s.c.toNat ++
    littleEndian 4 s.d.toNat

@[simp] theorem length_littleEndian (k n : Nat) : (littleEndian k n).length = k := by
  induction k generalizing n with
  | zero => rfl
  | succ k ih => simp [littleEndian, ih]

@[simp] theorem length_digest (message : List UInt8) : (digest message).length = 16 := by
  simp [digest, length_littleEndian]

end MD5

def hexDigit (n : Nat) : Char :=
  if n < 10 then Char.ofNat (48 + n) else Char.ofNat (87 + n)

def hexByte (b : UInt8) : List Char :=
  [hexDigit (b.toNat / 16), hexDigit (b.toNat % 16)]

def bytesOf (s : String) : List UInt8 := s.toList.flatMap String.utf8EncodeChar

def md5Hex (message : List UInt8) : String :=
  String.ofList ((MD5.digest message).flatMap hexByte)

/-- The bytes behind the digest of a collection: its texts in order, one after the other. -/
def collectionBytes (texts : List String) : List UInt8 := (sortTexts texts).flatMap bytesOf

def ofCollection (texts : List String) : String := md5Hex (collectionBytes texts)

end IngressControl.Digest
