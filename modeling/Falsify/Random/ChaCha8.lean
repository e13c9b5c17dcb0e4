/-!
# The ChaCha8 stream

The pseudo-random words behind fresh draws: ChaCha with eight rounds, a 64-bit block counter that
starts at zero and a zero nonce. The key is spread from a 64-bit seed, so that the seed alone
fixes the stream.

* `ChaCha8.ofSeed`: the stream of a seed;
* `ChaCha8.next`: its next 64-bit word, made of two words of the key stream, low half first.
-/

namespace Falsify

namespace ChaCha8

/-- The state matrix, row by row. -/
abbrev Matrix := Vector UInt32 16

def rotateLeft (x : UInt32) (k : UInt32) : UInt32 :=
  (x <<< k) ||| (x >>> (32 - k))

def rotateRight (x : UInt32) (k : UInt32) : UInt32 :=
  if k = 0 then x else (x >>> k) ||| (x <<< (32 - k))

/-- One quarter round on the four words at the given places. -/
def quarterRound (a b c d : Fin 16) (m : Matrix) : Matrix :=
  let m := m.set a (m[a] + m[b])
  let m := m.set d (rotateLeft (m[d] ^^^ m[a]) 16)
  let m := m.set c (m[c] + m[d])
  let m := m.set b (rotateLeft (m[b] ^^^ m[c]) 12)
  let m := m.set a (m[a] + m[b])
  let m := m.set d (rotateLeft (m[d] ^^^ m[a]) 8)
  let m := m.set c (m[c] + m[d])
  m.set b (rotateLeft (m[b] ^^^ m[c]) 7)

/-- Two rounds: the columns, then the diagonals. -/
def doubleRound (m : Matrix) : Matrix :=
  m |> quarterRound 0 4 8 12 |> quarterRound 1 5 9 13 |> quarterRound 2 6 10 14
    |> quarterRound 3 7 11 15 |> quarterRound 0 5 10 15 |> quarterRound 1 6 11 12
    |> quarterRound 2 7 8 13 |> quarterRound 3 4 9 14

/-- The matrix from which a block is made: the constants, the key, the block's number and no
nonce. -/
def initialMatrix (key : Vector UInt32 8) (block : UInt64) : Matrix :=
  let constants : Vector UInt32 4 := #v[0x61707865, 0x3320646e, 0x79622d32, 0x6b206574]
  let counter : Vector UInt32 4 := #v[block.toUInt32, (block >>> 32).toUInt32, 0, 0]
  constants ++ key ++ counter

/-- The sixteen words of a block. -/
def blockWords (key : Vector UInt32 8) (block : UInt64) : Matrix :=
  let start := initialMatrix key block
  Vector.zipWith (· + ·) (start |> doubleRound |> doubleRound |> doubleRound |> doubleRound) start

/-- Neighbouring words joined in pairs, the first one being the low half. -/
def joinPairs : List UInt32 → List UInt64
  | low :: high :: rest => (low.toUInt64 ||| (high.toUInt64 <<< 32)) :: joinPairs rest
  | _ => []

end ChaCha8

/-- A place in a ChaCha8 stream: the number of the next block, and the words of the last one that
have not been handed out yet. -/
structure ChaCha8 where
  key : Vector UInt32 8
  block : UInt64
  pending : List UInt64

namespace ChaCha8

/-- One step of the generator that spreads a seed: its next state, and a word from it. -/
def spread (state : UInt64) : UInt64 × UInt32 :=
  let state := state * 6364136223846793005 + 11634580027462260723
  let word := (((state >>> 18) ^^^ state) >>> 27).toUInt32
  (state, rotateRight word (state >>> 59).toUInt32)

/-- The first words that a seed is spread into. -/
def spreadWords : Nat → UInt64 → List UInt32
  | 0, _ => []
  | n + 1, state => (spread state).2 :: spreadWords n (spread state).1

/-- The stream of a seed, from its start. -/
def ofSeed (seed : UInt64) : ChaCha8 where
  key := Vector.ofFn fun i => (spreadWords 8 seed).getD i 0
  block := 0
  pending := []

/-- The next word, and the stream behind it. -/
def next (s : ChaCha8) : UInt64 × ChaCha8 :=
  match s.pending with
  | word :: rest => (word, { s with pending := rest })
  | [] =>
    match joinPairs (blockWords s.key s.block).toList with
    | word :: rest => (word, { s with block := s.block + 1, pending := rest })
    | [] => (0, s)

end ChaCha8

end Falsify
