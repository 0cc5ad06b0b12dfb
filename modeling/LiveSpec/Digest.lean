import LiveSpec.Text.Bytes
import LiveSpec.Value

/-!
# Digests of files

The content of a stored file is known by the SHA-256 digest of its bytes. The bytes are followed by
a one bit, by zeros and by their number of bits, so that they fill blocks of 64; each block is
expanded to 64 words and mixed into a state of eight words, one word a round.
-/

namespace LiveSpec.Digest

/-- The state that blocks are mixed into. -/
structure State where
  a : UInt32
  b : UInt32
  c : UInt32
  d : UInt32
  e : UInt32
  f : UInt32
  g : UInt32
  h : UInt32
deriving DecidableEq, Repr

/-- The state before the first block: the first bits after the point of the square roots of the
first eight primes. -/
def start : State :=
  ⟨0x6a09e667, 0xbb67ae85, 0x3c6ef372, 0xa54ff53a, 0x510e527f, 0x9b05688c, 0x1f83d9ab, 0x5be0cd19⟩

/-- The constants of the rounds: the first bits after the point of the cube roots of the first 64
primes. -/
def roundConstants : List UInt32 := [
  0x428a2f98, 0x71374491, 0xb5c0fbcf, 0xe9b5dba5, 0x3956c25b, 0x59f111f1, 0x923f82a4, 0xab1c5ed5,
  0xd807aa98, 0x12835b01, 0x243185be, 0x550c7dc3, 0x72be5d74, 0x80deb1fe, 0x9bdc06a7, 0xc19bf174,
  0xe49b69c1, 0xefbe4786, 0x0fc19dc6, 0x240ca1cc, 0x2de92c6f, 0x4a7484aa, 0x5cb0a9dc, 0x76f988da,
  0x983e5152, 0xa831c66d, 0xb00327c8, 0xbf597fc7, 0xc6e00bf3, 0xd5a79147, 0x06ca6351, 0x14292967,
  0x27b70a85, 0x2e1b2138, 0x4d2c6dfc, 0x53380d13, 0x650a7354, 0x766a0abb, 0x81c2c92e, 0x92722c85,
  0xa2bfe8a1, 0xa81a664b, 0xc24b8b70, 0xc76c51a3, 0xd192e819, 0xd6990624, 0xf40e3585, 0x106aa070,
  0x19a4c116, 0x1e376c08, 0x2748774c, 0x34b0bcb5, 0x391c0cb3, 0x4ed8aa4a, 0x5b9cca4f, 0x682e6ff3,
  0x748f82ee, 0x78a5636f, 0x84c87814, 0x8cc70208, 0x90befffa, 0xa4506ceb, 0xbef9a3f7, 0xc67178f2]

/-- The bytes of a number, the most significant first. -/
def bytesOf (count n : Nat) : List UInt8 :=
  (List.range count).map fun i => (n >>> (8 * (count - 1 - i))).toUInt8

/-- The bytes of a message, filled up to whole blocks. -/
def padded (message : List UInt8) : List UInt8 :=
  let zeros := (119 - message.length % 64) % 64
  message ++ 0x80 :: List.replicate zeros 0 ++ bytesOf 8 (8 * message.length)

/-- Bytes as words of four bytes, the most significant first. -/
def words : List UInt8 → List UInt32
  | a :: b :: c :: d :: rest =>
    ((a.toUInt32 <<< 24) ||| (b.toUInt32 <<< 16) ||| (c.toUInt32 <<< 8) |||
      d.toUInt32) :: words rest
  | _ => []

/-- A word turned to the right. -/
def turn (x count : UInt32) : UInt32 := (x >>> count) ||| (x <<< (32 - count))

/-- Adds `count` words to a list of words, in which the last word is first: each new one is mixed
from four of the last sixteen. -/
def extend : Nat → List UInt32 → List UInt32
  | 0, ws => ws
  | count + 1, ws =>
    let near := ws.getD 1 0
    let far := ws.getD 14 0
    let mixedNear := turn near 17 ^^^ turn near 19 ^^^ (near >>> 10)
    let mixedFar := turn far 7 ^^^ turn far 18 ^^^ (far >>> 3)
    extend count ((ws.getD 15 0 + mixedFar + ws.getD 6 0 + mixedNear) :: ws)

/-- The 64 words of a block. -/
def schedule (block : List UInt32) : List UInt32 := (extend 48 block.reverse).reverse

/-- One round: a word and a constant are mixed into the state. -/
def round (s : State) (word constant : UInt32) : State :=
  let choice := (s.e &&& s.f) ^^^ ((~~~ s.e) &&& s.g)
  let majority := (s.a &&& s.b) ^^^ (s.a &&& s.c) ^^^ (s.b &&& s.c)
  let first := s.h + (turn s.e 6 ^^^ turn s.e 11 ^^^ turn s.e 25) + choice + constant + word
  let second := (turn s.a 2 ^^^ turn s.a 13 ^^^ turn s.a 22) + majority
  ⟨first + second, s.a, s.b, s.c, s.d + first, s.e, s.f, s.g⟩

/-- Mixes a block into the state. -/
def mix (s : State) (block : List UInt32) : State :=
  let t := ((schedule block).zip roundConstants).foldl (fun s (w, k) => round s w k) s
  ⟨s.a + t.a, s.b + t.b, s.c + t.c, s.d + t.d, s.e + t.e, s.f + t.f, s.g + t.g, s.h + t.h⟩

/-- Mixes all blocks of sixteen words into the state, at most `count` of them. -/
def mixAll : Nat → State → List UInt32 → State
  | 0, s, _ => s
  | count + 1, s, ws => if ws.isEmpty then s else mixAll count (mix s (ws.take 16)) (ws.drop 16)

/-- The hexadecimal digits of a word. -/
def hexadecimal (w : UInt32) : List Char :=
  (bytesOf 4 w.toNat).flatMap fun b => [Value.hexDigit (b.toNat / 16),
    Value.hexDigit (b.toNat % 16)]

/-- The digest of bytes, in hexadecimal digits. -/
def ofBytes (b : Bytes) : String :=
  let ws := words (padded b.list)
  let t := mixAll ws.length start ws
  .ofList ([t.a, t.b, t.c, t.d, t.e, t.f, t.g, t.h].flatMap hexadecimal)

/-- The digest of the bytes of a text. -/
def ofText (s : String) : String := ofBytes (.ofText s)

end LiveSpec.Digest
