/-! A keyed stream of random words: the ChaCha block function with twelve rounds, a counter of 64 bits and
an empty nonce. Block `n` depends on the key and `n` alone, so any word of the stream can be asked for. -/

namespace TurtleChain.ChaCha

/-- The sixteen words of a block, in rows of four. -/
abbrev Block := Vector UInt32 16

def rotateLeft (x n : UInt32) : UInt32 :=
  (x <<< n) ||| (x >>> (32 - n))

def quarterRound (s : Block) (a b c d : Fin 16) : Block :=
  let s := s.set a (s[a] + s[b])
  let s := s.set d (rotateLeft (s[d] ^^^ s[a]) 16)
  let s := s.set c (s[c] + s[d])
  let s := s.set b (rotateLeft (s[b] ^^^ s[c]) 12)
  let s := s.set a (s[a] + s[b])
  let s := s.set d (rotateLeft (s[d] ^^^ s[a]) 8)
  let s := s.set c (s[c] + s[d])
  s.set b (rotateLeft (s[b] ^^^ s[c]) 7)

/-- A round down the columns and a round down the diagonals. -/
def doubleRound (s : Block) : Block :=
  let s := quarterRound s 0 4 8 12
  let s := quarterRound s 1 5 9 13
  let s := quarterRound s 2 6 10 14
  let s := quarterRound s 3 7 11 15
  let s := quarterRound s 0 5 10 15
  let s := quarterRound s 1 6 11 12
  let s := quarterRound s 2 7 8 13
  quarterRound s 3 4 9 14

def initial (key : Vector UInt32 8) (counter : UInt64) : Block :=
  #v[0x61707865, 0x3320646e, 0x79622d32, 0x6b206574,
     key[0], key[1], key[2], key[3], key[4], key[5], key[6], key[7],
     counter.toUInt32, (counter >>> 32).toUInt32, 0, 0]

def block (key : Vector UInt32 8) (counter : UInt64) : Block :=
  let start := initial key counter
  let mixed := (List.range 6).foldl (fun s _ => doubleRound s) start
  mixed.zipWith (· + ·) start

/-- The next state of the generator that spreads a seed over a key. -/
def nextSeed (seed : UInt64) : UInt64 :=
  seed * 6364136223846793005 + 11634580027462260723

/-- The key word of a seed state: its upper bits folded, then rotated by the topmost five. -/
def keyWord (seed : UInt64) : UInt32 :=
  let folded := (((seed >>> 18) ^^^ seed) >>> 27).toUInt32
  let turn := (seed >>> 59).toUInt32
  if turn = 0 then folded else (folded >>> turn) ||| (folded <<< (32 - turn))

/-- The key of a seed: one word for each of the eight states after it. -/
def keyOfSeed (seed : UInt64) : Vector UInt32 8 :=
  Vector.ofFn fun i => keyWord ((List.range (i.val + 1)).foldl (fun s _ => nextSeed s) seed)

/-- The `n`th word of 64 bits, of two words of 32 bits, the low one first. -/
def word64 (key : Vector UInt32 8) (n : Nat) : UInt64 :=
  let words := block key (UInt64.ofNat (n / 8))
  let i := 2 * (n % 8)
  (words.get ⟨i, by omega⟩).toUInt64 ||| ((words.get ⟨i + 1, by omega⟩).toUInt64 <<< 32)

/-- The stream of a seed. -/
def words (seed : UInt64) : Nat → UInt64 :=
  let key := keyOfSeed seed
  fun n => word64 key n

end TurtleChain.ChaCha
