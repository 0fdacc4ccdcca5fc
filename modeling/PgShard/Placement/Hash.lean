import PgShard.Key.KeyType
import PgShard.Placement.Ranges

/-!
# From a key to its position in the key space

PostgreSQL's extended hash functions of hash partitioning, over 32-bit words, and the
position a shard key value has under the partition seed.
-/

namespace PgShard.Placement

open Key

def partitionSeed : UInt64 := 8816678312871386365

def golden : UInt32 := 0x9e3779b9
def pgHashMix : UInt32 := 3923095

def rotateLeft (x k : UInt32) : UInt32 := (x <<< k) ||| (x >>> (32 - k))

def mix (a b c : UInt32) : UInt32 × UInt32 × UInt32 :=
  let a := (a - c) ^^^ rotateLeft c 4
  let c := c + b
  let b := (b - a) ^^^ rotateLeft a 6
  let a := a + c
  let c := (c - b) ^^^ rotateLeft b 8
  let b := b + a
  let a := (a - c) ^^^ rotateLeft c 16
  let c := c + b
  let b := (b - a) ^^^ rotateLeft a 19
  let a := a + c
  let c := (c - b) ^^^ rotateLeft b 4
  let b := b + a
  (a, b, c)

/-- The last mixing, of which the upper and the lower word of the hash remain. -/
def final (a b c : UInt32) : UInt32 × UInt32 :=
  let c := (c ^^^ b) - rotateLeft b 14
  let a := (a ^^^ c) - rotateLeft c 11
  let b := (b ^^^ a) - rotateLeft a 25
  let c := (c ^^^ b) - rotateLeft b 16
  let a := (a ^^^ c) - rotateLeft c 4
  let b := (b ^^^ a) - rotateLeft a 14
  let c := (c ^^^ b) - rotateLeft b 24
  (b, c)

/-- Bytes as a word, the lowest first. -/
def littleEndian : Bytes → UInt32
  | [] => 0
  | c :: rest => c.toUInt32 + littleEndian rest <<< 8

/-- The words before the first byte of a key of `n` bytes. -/
def seeded (n : UInt32) (seed : UInt64) : UInt32 × UInt32 × UInt32 :=
  let a := golden + n + pgHashMix
  if seed = 0 then (a, a, a) else mix (a + (seed >>> 32).toUInt32) (a + seed.toUInt32) a

/-- Twelve bytes at a time; what is left is shorter. -/
def rounds (s : UInt32 × UInt32 × UInt32) (k : Bytes) : (UInt32 × UInt32 × UInt32) × Bytes :=
  if 12 ≤ k.length then
    rounds (mix (s.1 + littleEndian (k.take 4)) (s.2.1 + littleEndian ((k.drop 4).take 4))
      (s.2.2 + littleEndian ((k.drop 8).take 4))) (k.drop 12)
  else (s, k)
termination_by k.length
decreasing_by
  rw [List.length_drop]
  omega

def joined (w : UInt32 × UInt32) : UInt64 := w.1.toUInt64 <<< 32 ||| w.2.toUInt64

def hashBytesExtended (k : Bytes) (seed : UInt64) : UInt64 :=
  let ((a, b, c), tail) := rounds (seeded (UInt32.ofNat k.length) seed) k
  -- the lowest byte of the third word is left for the length
  joined (final (a + littleEndian (tail.take 4)) (b + littleEndian ((tail.drop 4).take 4))
    (c + littleEndian ((tail.drop 8).take 3) <<< 8))

def hashUint32Extended (k : UInt32) (seed : UInt64) : UInt64 :=
  let (a, b, c) := seeded 4 seed
  joined (final (a + k) b c)

/-- The low 32 bits of an integer. -/
def word (v : Int) : UInt32 := UInt32.ofNat (v % 2 ^ 32).toNat

/-- The halves of a bigint are folded so that a value hashes as it does as an integer. -/
def hashInt8Extended (v : Int) (seed : UInt64) : UInt64 :=
  let hi := word (v / 2 ^ 32)
  hashUint32Extended (word v ^^^ (if 0 ≤ v then hi else ~~~hi)) seed

def hashInt4Extended (v : Int) (seed : UInt64) : UInt64 := hashUint32Extended (word v) seed

def hashInt2Extended (v : Int) (seed : UInt64) : UInt64 := hashUint32Extended (word v) seed

/-- A hash read as a position of the signed key space. -/
def position (h : UInt64) : Int := h.toInt64.toInt

lemma position_mem (h : UInt64) : minKey ≤ position h ∧ position h ≤ maxKey := by
  have hlo := Int64.le_toInt h.toInt64
  have hhi := Int64.toInt_lt h.toInt64
  unfold position minKey maxKey
  omega

/-- The position of a shard key value. -/
def keyspaceID : Value → Int
  | .int i => position (hashInt8Extended i partitionSeed)
  | .text b => position (hashBytesExtended b partitionSeed)
  | .uuid b => position (hashBytesExtended b partitionSeed)

-- a value PostgreSQL itself was asked for
example : keyspaceID (.int 42) = 7363975540656877951 := by decide +kernel

lemma hashInt8_eq_hashInt4 {v : Int} (seed : UInt64) (hlo : -2 ^ 31 ≤ v) (hhi : v < 2 ^ 31) :
    hashInt8Extended v seed = hashInt4Extended v seed := by
  unfold hashInt8Extended hashInt4Extended
  dsimp only
  split
  · have : v / 2 ^ 32 = 0 := by omega
    rw [this]
    simp [word]
  · have : v / 2 ^ 32 = -1 := by omega
    rw [this]
    have hones : ~~~word (-1) = 0 := by decide
    rw [hones, UInt32.xor_zero]

end PgShard.Placement
