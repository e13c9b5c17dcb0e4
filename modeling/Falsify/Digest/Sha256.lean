import Falsify.Bytes

/-!
# SHA-256

The digest under which examples are filed. A message is padded to whole blocks of 64 bytes; each
block is stretched to a schedule of 64 words and mixed into a state of eight.

* `Sha256.digest`: the 32 bytes of a message's digest.
-/

namespace Falsify.Sha256

/-- The round constants: the first 32 bits of the fractional parts of the cube roots of the first 64
primes. -/
def roundConstants : Vector UInt32 64 := #v[
  0x428a2f98, 0x71374491, 0xb5c0fbcf, 0xe9b5dba5, 0x3956c25b, 0x59f111f1, 0x923f82a4, 0xab1c5ed5,
  0xd807aa98, 0x12835b01, 0x243185be, 0x550c7dc3, 0x72be5d74, 0x80deb1fe, 0x9bdc06a7, 0xc19bf174,
  0xe49b69c1, 0xefbe4786, 0x0fc19dc6, 0x240ca1cc, 0x2de92c6f, 0x4a7484aa, 0x5cb0a9dc, 0x76f988da,
  0x983e5152, 0xa831c66d, 0xb00327c8, 0xbf597fc7, 0xc6e00bf3, 0xd5a79147, 0x06ca6351, 0x14292967,
  0x27b70a85, 0x2e1b2138, 0x4d2c6dfc, 0x53380d13, 0x650a7354, 0x766a0abb, 0x81c2c92e, 0x92722c85,
  0xa2bfe8a1, 0xa81a664b, 0xc24b8b70, 0xc76c51a3, 0xd192e819, 0xd6990624, 0xf40e3585, 0x106aa070,
  0x19a4c116, 0x1e376c08, 0x2748774c, 0x34b0bcb5, 0x391c0cb3, 0x4ed8aa4a, 0x5b9cca4f, 0x682e6ff3,
  0x748f82ee, 0x78a5636f, 0x84c87814, 0x8cc70208, 0x90befffa, 0xa4506ceb, 0xbef9a3f7, 0xc67178f2]

/-- The eight words that are carried from block to block. -/
structure State where
  a : UInt32
  b : UInt32
  c : UInt32
  d : UInt32
  e : UInt32
  f : UInt32
  g : UInt32
  h : UInt32

/-- The state before the first block: the fractional parts of the square roots of the first
primes. -/
def initial : State :=
  ⟨0x6a09e667, 0xbb67ae85, 0x3c6ef372, 0xa54ff53a, 0x510e527f, 0x9b05688c, 0x1f83d9ab, 0x5be0cd19⟩

def rotate (x k : UInt32) : UInt32 :=
  (x >>> k) ||| (x <<< (32 - k))

/-- The message, a one bit, zeros up to a whole block, and the message's length in bits. -/
def pad (message : Bytes) : Bytes :=
  message ++ 0x80 :: List.replicate ((119 - message.length % 64) % 64) 0
    ++ bigEndian 8 (8 * message.length)

/-- The words of a byte string, four bytes each. -/
def words : Bytes → List UInt32
  | a :: b :: c :: d :: rest => UInt32.ofNat (ofBigEndian [a, b, c, d]) :: words rest
  | _ => []

/-- The next word of the schedule, from those so far. -/
def nextWord (w : Array UInt32) : UInt32 :=
  let at' (k : Nat) := w.getD (w.size - k) 0
  let s0 := rotate (at' 15) 7 ^^^ rotate (at' 15) 18 ^^^ (at' 15 >>> 3)
  let s1 := rotate (at' 2) 17 ^^^ rotate (at' 2) 19 ^^^ (at' 2 >>> 10)
  at' 16 + s0 + at' 7 + s1

/-- The schedule of a block: its sixteen words and 48 more. -/
def schedule (block : List UInt32) : Array UInt32 :=
  (List.range 48).foldl (fun w _ => w.push (nextWord w)) block.toArray

/-- One round, with a word of the schedule and its constant. -/
def round (s : State) (input : UInt32) : State :=
  let s1 := rotate s.e 6 ^^^ rotate s.e 11 ^^^ rotate s.e 25
  let choice := (s.e &&& s.f) ^^^ (~~~s.e &&& s.g)
  let t1 := s.h + s1 + choice + input
  let s0 := rotate s.a 2 ^^^ rotate s.a 13 ^^^ rotate s.a 22
  let majority := (s.a &&& s.b) ^^^ (s.a &&& s.c) ^^^ (s.b &&& s.c)
  ⟨t1 + (s0 + majority), s.a, s.b, s.c, s.d + t1, s.e, s.f, s.g⟩

/-- Mixes a block into the state. -/
def compress (s : State) (block : List UInt32) : State :=
  let inputs := (schedule block).toList.zipWith (· + ·) roundConstants.toList
  let t := inputs.foldl round s
  ⟨s.a + t.a, s.b + t.b, s.c + t.c, s.d + t.d, s.e + t.e, s.f + t.f, s.g + t.g, s.h + t.h⟩

/-- Mixes all blocks of sixteen words into the state. -/
def compressAll (s : State) (message : List UInt32) : State :=
  if _h : message = [] then s
  else compressAll (compress s (message.take 16)) (message.drop 16)
termination_by message.length
decreasing_by
  have : 0 < message.length := List.length_pos_iff.2 _h
  simp only [List.length_drop]
  omega

/-- The bytes of a state, word by word. -/
def State.bytes (s : State) : Bytes :=
  [s.a, s.b, s.c, s.d, s.e, s.f, s.g, s.h].flatMap fun word => bigEndian 4 word.toNat

theorem State.length_bytes (s : State) : s.bytes.length = 32 := by
  simp [State.bytes]

/-- The digest of a message. -/
def digest (message : Bytes) : Vector UInt8 32 :=
  let state := compressAll initial (words (pad message))
  ⟨state.bytes.toArray, by rw [List.size_toArray, State.length_bytes]⟩

end Falsify.Sha256
