import AigentSquad.PyRepr

/-!
# SHA-256

`hashlib.sha256(text.encode()).hexdigest()`.
-/

set_option autoImplicit false

namespace AigentSquad.Sha256
open AigentSquad.PyText AigentSquad.PyRepr

def ROUND_CONSTANTS : List UInt32 :=
  [0x428a2f98, 0x71374491, 0xb5c0fbcf, 0xe9b5dba5, 0x3956c25b, 0x59f111f1, 0x923f82a4, 0xab1c5ed5,
    0xd807aa98, 0x12835b01, 0x243185be, 0x550c7dc3, 0x72be5d74, 0x80deb1fe, 0x9bdc06a7, 0xc19bf174,
    0xe49b69c1, 0xefbe4786, 0x0fc19dc6, 0x240ca1cc, 0x2de92c6f, 0x4a7484aa, 0x5cb0a9dc, 0x76f988da,
    0x983e5152, 0xa831c66d, 0xb00327c8, 0xbf597fc7, 0xc6e00bf3, 0xd5a79147, 0x06ca6351, 0x14292967,
    0x27b70a85, 0x2e1b2138, 0x4d2c6dfc, 0x53380d13, 0x650a7354, 0x766a0abb, 0x81c2c92e, 0x92722c85,
    0xa2bfe8a1, 0xa81a664b, 0xc24b8b70, 0xc76c51a3, 0xd192e819, 0xd6990624, 0xf40e3585, 0x106aa070,
    0x19a4c116, 0x1e376c08, 0x2748774c, 0x34b0bcb5, 0x391c0cb3, 0x4ed8aa4a, 0x5b9cca4f, 0x682e6ff3,
    0x748f82ee, 0x78a5636f, 0x84c87814, 0x8cc70208, 0x90befffa, 0xa4506ceb, 0xbef9a3f7, 0xc67178f2]

structure Chain where
  a : UInt32
  b : UInt32
  c : UInt32
  d : UInt32
  e : UInt32
  f : UInt32
  g : UInt32
  h : UInt32

def INITIAL : Chain :=
  ⟨0x6a09e667, 0xbb67ae85, 0x3c6ef372, 0xa54ff53a, 0x510e527f, 0x9b05688c, 0x1f83d9ab,
    0x5be0cd19⟩

def rotr (x n : UInt32) : UInt32 := (x >>> n) ||| (x <<< (32 - n))

def round (s : Chain) (kw : UInt32 × UInt32) : Chain :=
  let t₁ := s.h + (rotr s.e 6 ^^^ rotr s.e 11 ^^^ rotr s.e 25) +
    ((s.e &&& s.f) ^^^ (~~~s.e &&& s.g)) + kw.1 + kw.2
  let t₂ := (rotr s.a 2 ^^^ rotr s.a 13 ^^^ rotr s.a 22) +
    ((s.a &&& s.b) ^^^ (s.a &&& s.c) ^^^ (s.b &&& s.c))
  ⟨t₁ + t₂, s.a, s.b, s.c, s.d + t₁, s.e, s.f, s.g⟩

def next_word (w : List UInt32) : UInt32 :=
  let x := w.getD 14 0
  let y := w.getD 1 0
  (rotr y 17 ^^^ rotr y 19 ^^^ (y >>> 10)) + w.getD 6 0 +
    (rotr x 7 ^^^ rotr x 18 ^^^ (x >>> 3)) + w.getD 15 0

/-- The words so far, the last one first, and `n` more. -/
def schedule : Nat → List UInt32 → List UInt32
  | 0, w => w
  | n + 1, w => schedule n (next_word w :: w)

def word (bytes : List UInt8) : UInt32 :=
  bytes.foldl (fun n b => n * 256 + b.toUInt32) 0

/-- The big-endian words of a block, `n` of them. -/
def words : Nat → List UInt8 → List UInt32
  | 0, _ => []
  | n + 1, bytes => word (bytes.take 4) :: words n (bytes.drop 4)

def compress (s : Chain) (block : List UInt8) : Chain :=
  let w := (schedule 48 (words 16 block).reverse).reverse
  let t := (ROUND_CONSTANTS.zip w).foldl round s
  ⟨s.a + t.a, s.b + t.b, s.c + t.c, s.d + t.d, s.e + t.e, s.f + t.f, s.g + t.g, s.h + t.h⟩

/-- The bit length in `k` bytes, big-endian. -/
def lengthBytes (n : Nat) : Nat → List UInt8
  | 0 => []
  | k + 1 => UInt8.ofNat (n / 256 ^ k) :: lengthBytes n k

def pad (message : List UInt8) : List UInt8 :=
  message ++ 0x80 :: (List.replicate ((119 - message.length % 64) % 64) 0 ++
    lengthBytes (message.length * 8) 8)

def digestFrom : Nat → Chain → List UInt8 → Chain
  | 0, s, _ => s
  | n + 1, s, bytes => digestFrom n (compress s (bytes.take 64)) (bytes.drop 64)

def digest (message : List UInt8) : Chain :=
  digestFrom ((pad message).length / 64) INITIAL (pad message)

def hexdigest (text : Str) : Str :=
  let s := digest (text.flatMap String.utf8EncodeChar)
  [s.a, s.b, s.c, s.d, s.e, s.f, s.g, s.h].flatMap (fun w => hexPad 8 w.toNat)

set_option maxRecDepth 20000 in
example : hexdigest "abc".toList =
    "ba7816bf8f01cfea414140de5dae2223b00361a396177a9cb410ff61f20015ad".toList := by
  rfl

end AigentSquad.Sha256
