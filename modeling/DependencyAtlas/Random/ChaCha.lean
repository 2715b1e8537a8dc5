import DependencyAtlas.Digest.Words
import DependencyAtlas.Random.Generator

/-!
# The ChaCha generator

The key stream of the ChaCha cipher with twelve rounds, read as words of 64 bits, the low half
first. A seed of 64 bits is stretched to a key.
-/

namespace DependencyAtlas

open Digest

namespace ChaCha

/-- A round over the columns and one over the diagonals. The rotations go to the left by 16, 12, 8
and 7 bits. -/
def doubleRound (v : Words 16) : Words 16 :=
  mixRound (fun _ => mix 0 0 16 20 24 25) v

def constants : Words 4 :=
  #v[0x61707865, 0x3320646E, 0x79622D32, 0x6B206574]

def block (key : Words 8) (counter : UInt64) : Words 16 :=
  let start : Words 16 :=
    constants ++ key ++ (#v[counter.toUInt32, (counter >>> 32).toUInt32, 0, 0] : Words 4)
  let mixed := Nat.repeat doubleRound 6 start
  Vector.zipWith (· + ·) mixed start

def outputs : List UInt32 → List UInt64
  | low :: high :: rest => (low.toUInt64 ||| (high.toUInt64 <<< 32)) :: outputs rest
  | _ => []

def stretch (seed : UInt64) : UInt32 × UInt64 :=
  let s := seed * 6364136223846793005 + 11634580027462260723
  (rotateRight (((s >>> 18) ^^^ s) >>> 27).toUInt32 (s >>> 59).toUInt32, s)

def keyWords : Nat → UInt64 → List UInt32
  | 0, _ => []
  | n + 1, seed =>
    let (word, seed) := stretch seed
    word :: keyWords n seed

def keyOfSeed (seed : UInt64) : Words 8 :=
  let words := (keyWords 8 seed).toArray
  Vector.ofFn fun i => words[i.val]?.getD 0

end ChaCha

/-- A position in a key stream: the words left of the current block and the number of the next
block. -/
structure ChaCha where
  key : Digest.Words 8
  counter : UInt64
  ready : List UInt64

namespace ChaCha

def ofSeed (seed : UInt64) : ChaCha :=
  ⟨keyOfSeed seed, 0, []⟩

def next (g : ChaCha) : UInt64 × ChaCha :=
  match g.ready with
  | v :: rest => (v, { g with ready := rest })
  | [] =>
    match outputs (block g.key g.counter).toList with
    | v :: rest => (v, { g with counter := g.counter + 1, ready := rest })
    | [] => (0, g)

instance : Generator ChaCha where
  next := next

end ChaCha

end DependencyAtlas
