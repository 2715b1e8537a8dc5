/-!
# Words of 32 bits

Rotation, little-endian order, and states of sixteen words of which four are mixed at a time.
-/

namespace DependencyAtlas.Digest

abbrev Words (n : Nat) := Vector UInt32 n

def rotateRight (x : UInt32) (bits : UInt32) : UInt32 :=
  (x >>> bits) ||| (x <<< (32 - bits))

/-- The word of the four bytes from a position on, the low byte first. Missing bytes are zero. -/
def wordAt (bytes : Array UInt8) (i : Nat) : UInt32 :=
  let byte (k : Nat) : UInt32 := (bytes[i + k]?.getD 0).toUInt32
  byte 0 ||| (byte 1 <<< 8) ||| (byte 2 <<< 16) ||| (byte 3 <<< 24)

def bytesOfWord (x : UInt32) : List UInt8 :=
  [x.toUInt8, (x >>> 8).toUInt8, (x >>> 16).toUInt8, (x >>> 24).toUInt8]

/-- Mixes four words: what is added to the first of them in both halves, and the four
rotations. -/
def mix (first second r₁ r₂ r₃ r₄ : UInt32) (v : Words 16) (a b c d : Fin 16) : Words 16 :=
  let va := v[a] + v[b] + first
  let vd := rotateRight (v[d] ^^^ va) r₁
  let vc := v[c] + vd
  let vb := rotateRight (v[b] ^^^ vc) r₂
  let va := va + vb + second
  let vd := rotateRight (vd ^^^ va) r₃
  let vc := vc + vd
  let vb := rotateRight (vb ^^^ vc) r₄
  (((v.set a va).set b vb).set c vc).set d vd

abbrev Mixer := Words 16 → Fin 16 → Fin 16 → Fin 16 → Fin 16 → Words 16

/-- Mixes the four columns and then the four diagonals of a state, each in its own way. -/
def mixRound (mixer : Fin 8 → Mixer) (v : Words 16) : Words 16 :=
  let v := mixer 0 v 0 4 8 12
  let v := mixer 1 v 1 5 9 13
  let v := mixer 2 v 2 6 10 14
  let v := mixer 3 v 3 7 11 15
  let v := mixer 4 v 0 5 10 15
  let v := mixer 5 v 1 6 11 12
  let v := mixer 6 v 2 7 8 13
  mixer 7 v 3 4 9 14

end DependencyAtlas.Digest
