import CurveArea.Random.Words

/-!
# ChaCha with eight rounds

The source behind a seed. Its key is drawn from the seed by a generator of 64-bit words, and block
number `n` of the stream is the state with key and counter `n` after eight rounds, added to itself
before them. Two words of 32 bits make one of 64, the lower half first.
-/

namespace CurveArea

/-- The sixteen words of a block. -/
abbrev ChaChaBlock := Vector UInt32 16

/-- A ChaCha stream: the words that are left of the blocks made so far, and the next block. -/
structure ChaCha where
  /-- The key. -/
  key : Vector UInt32 8
  /-- The number of the next block. -/
  block : UInt64
  /-- The words left of the block before. -/
  pending : List UInt64

namespace ChaCha

/-- Rotates a word to the left. -/
def rotateLeft (x : UInt32) (k : UInt32) : UInt32 := (x <<< k) ||| (x >>> (32 - k))

/-- The quarter round on four words of a block. -/
def quarterRound (a b c d : Fin 16) (s : ChaChaBlock) : ChaChaBlock :=
  let xa := s[a] + s[b]
  let xd := rotateLeft (s[d] ^^^ xa) 16
  let xc := s[c] + xd
  let xb := rotateLeft (s[b] ^^^ xc) 12
  let xa := xa + xb
  let xd := rotateLeft (xd ^^^ xa) 8
  let xc := xc + xd
  let xb := rotateLeft (xb ^^^ xc) 7
  (((s.set a xa).set b xb).set c xc).set d xd

/-- A round on the columns followed by one on the diagonals. -/
def doubleRound (s : ChaChaBlock) : ChaChaBlock :=
  let s := quarterRound 3 7 11 15 (quarterRound 2 6 10 14
    (quarterRound 1 5 9 13 (quarterRound 0 4 8 12 s)))
  quarterRound 3 4 9 14 (quarterRound 2 7 8 13 (quarterRound 1 6 11 12 (quarterRound 0 5 10 15 s)))

/-- The state before the rounds: four constants, the key, the block number and two zeros. -/
def input (key : Vector UInt32 8) (block : UInt64) : ChaChaBlock :=
  #v[0x61707865, 0x3320646e, 0x79622d32, 0x6b206574,
    key[0], key[1], key[2], key[3], key[4], key[5], key[6], key[7],
    block.toUInt32, (block >>> 32).toUInt32, 0, 0]

/-- A block of the stream. -/
def output (key : Vector UInt32 8) (block : UInt64) : ChaChaBlock :=
  let before := input key block
  Vector.zipWith (· + ·) before
    (doubleRound (doubleRound (doubleRound (doubleRound before))))

/-- Two words of 32 bits as one of 64. -/
def join (low high : UInt32) : UInt64 := low.toUInt64 ||| (high.toUInt64 <<< 32)

/-- The words of 64 bits of a block. -/
def words (s : ChaChaBlock) : Vector UInt64 8 :=
  #v[join s[0] s[1], join s[2] s[3], join s[4] s[5], join s[6] s[7],
    join s[8] s[9], join s[10] s[11], join s[12] s[13], join s[14] s[15]]

instance : WordSource ChaCha where
  next s := match s.pending with
    | word :: pending => (word, { s with pending })
    | [] =>
      let words := words (output s.key s.block)
      (words[0], { s with block := s.block + 1, pending := words.toList.tail })

/-- The next state of the generator of keys. -/
def seedStep (s : UInt64) : UInt64 := s * 6364136223846793005 + 11634580027462260723

/-- The key word of a state of the generator of keys: its upper bits, rotated as its highest ones
say. -/
def seedWord (s : UInt64) : UInt32 :=
  let x := (((s >>> 18) ^^^ s) >>> 27).toUInt32
  let k := (s >>> 59).toUInt32
  (x >>> k) ||| (x <<< (32 - k))

/-- The first `n` key words that follow a state. -/
def keyWords (s : UInt64) : (n : Nat) → List UInt32
  | 0 => []
  | n + 1 => seedWord (seedStep s) :: keyWords (seedStep s) n

/-- The key of a seed. -/
def keyOfSeed (seed : UInt64) : Vector UInt32 8 :=
  ⟨(keyWords seed 8).toArray, rfl⟩

/-- The stream of a seed: the source that launches draw from (specification, section 14). -/
def ofSeed (seed : UInt64) : ChaCha := ⟨keyOfSeed seed, 0, []⟩

end ChaCha

end CurveArea
