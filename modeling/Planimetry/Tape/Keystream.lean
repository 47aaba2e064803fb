import Planimetry.Tape

/-!
# Seeded tapes

The tape of a seed is a keystream of the ChaCha cipher with twelve rounds. The key is expanded
from the seed by a linear congruential generator with permuted output.

## Main definitions

* `Tape.Keystream.key`: the key of a seed.
* `Tape.Keystream.block`: sixteen words of the stream.
* `Tape.seeded`: the tape of a seed.
-/

namespace Planimetry

namespace Tape

namespace Keystream

/-- The sixteen words that a block is computed on. -/
abbrev State := Vector UInt32 16

/-- `x` with its bits moved `n` places to the left, around the end; `0 < n < 32`. -/
def rotateLeft (x n : UInt32) : UInt32 := (x <<< n) ||| (x >>> (32 - n))

/-! ## Key expansion -/

/-- One step of the key generator. -/
def step (s : UInt64) : UInt64 := s * 6364136223846793005 + 11634580027462260723

def output (s : UInt64) : UInt32 :=
  let x := (((s >>> 18) ^^^ s) >>> 27).toUInt32
  let r := (s >>> 59).toUInt32
  (x >>> r) ||| (x <<< ((32 - r) % 32))

/-- The generator state behind `n` steps. -/
def stateAfter (seed : UInt64) (n : Nat) : UInt64 := Nat.repeat step n seed

/-- The eight key words of a seed. -/
def key (seed : UInt64) : Vector UInt32 8 :=
  Vector.ofFn fun i => output (stateAfter seed (i + 1))

/-! ## Blocks -/

/-- The quarter round on the words `a`, `b`, `c` and `d`. -/
def quarter (a b c d : Fin 16) (s : State) : State :=
  let s := s.set a (s[a] + s[b])
  let s := s.set d (rotateLeft (s[d] ^^^ s[a]) 16)
  let s := s.set c (s[c] + s[d])
  let s := s.set b (rotateLeft (s[b] ^^^ s[c]) 12)
  let s := s.set a (s[a] + s[b])
  let s := s.set d (rotateLeft (s[d] ^^^ s[a]) 8)
  let s := s.set c (s[c] + s[d])
  s.set b (rotateLeft (s[b] ^^^ s[c]) 7)

/-- A round on the columns and a round on the diagonals. -/
def doubleRound (s : State) : State :=
  let s := quarter 0 4 8 12 s
  let s := quarter 1 5 9 13 s
  let s := quarter 2 6 10 14 s
  let s := quarter 3 7 11 15 s
  let s := quarter 0 5 10 15 s
  let s := quarter 1 6 11 12 s
  let s := quarter 2 7 8 13 s
  quarter 3 4 9 14 s

/-- The words that block `counter` starts from. -/
def initial (k : Vector UInt32 8) (counter : UInt64) : State :=
  #v[0x61707865, 0x3320646e, 0x79622d32, 0x6b206574,
     k[0], k[1], k[2], k[3], k[4], k[5], k[6], k[7],
     counter.toUInt32, (counter >>> 32).toUInt32, 0, 0]

/-- Block `counter` of the stream. -/
def block (k : Vector UInt32 8) (counter : UInt64) : State :=
  let s := initial k counter
  Vector.zipWith (· + ·) (Nat.repeat doubleRound 6 s) s

/-- The word at place `n` of the stream. -/
def word (k : Vector UInt32 8) (n : Nat) : UInt32 :=
  (block k (UInt64.ofNat (n / 16))).get ⟨n % 16, Nat.mod_lt _ (by decide)⟩

end Keystream

/-- The number of words in a keystream: 2 ^ 64 blocks of sixteen words. -/
def keystreamLength : Nat := 295147905179352825856

/-- The tape of a seed, as long as its keystream. -/
def seeded (seed : UInt64) : Tape :=
  let k := Keystream.key seed
  ⟨Keystream.word k, 0, keystreamLength⟩

end Tape

end Planimetry
