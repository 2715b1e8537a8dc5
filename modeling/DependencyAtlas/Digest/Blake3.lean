import DependencyAtlas.Digest.Words

/-!
# The BLAKE3 digest

The input is cut into chunks of 1024 bytes, which are the leaves of a binary tree. A left subtree
holds the largest power of two of chunks that leaves at least one byte for the right. The digest
is the compression of the root.
-/

namespace DependencyAtlas.Digest.Blake3

def initial : Words 8 :=
  #v[0x6A09E667, 0xBB67AE85, 0x3C6EF372, 0xA54FF53A, 0x510E527F, 0x9B05688C, 0x1F83D9AB, 0x5BE0CD19]

def permute (m : Words 16) : Words 16 :=
  #v[m[2], m[6], m[3], m[10], m[7], m[0], m[4], m[13], m[1], m[11], m[12], m[5], m[9], m[14],
    m[15], m[8]]

def flagChunkStart : UInt32 := 1
def flagChunkEnd : UInt32 := 2
def flagParent : UInt32 := 4
def flagRoot : UInt32 := 8

/-- One round, in which each mixing adds two words of the block. -/
def round (v m : Words 16) : Words 16 :=
  mixRound (fun i => mix (m.get ⟨2 * i.val, by omega⟩) (m.get ⟨2 * i.val + 1, by omega⟩) 16 12 8 7)
    v

def rounds : Nat → Words 16 → Words 16 → Words 16
  | 0, v, _ => v
  | n + 1, v, m => rounds n (round v m) (permute m)

/-- A compression that is still to be done; the root is compressed with one flag more. -/
structure Pending where
  chaining : Words 8
  block : Words 16
  counter : UInt64
  length : UInt32
  flags : UInt32

def Pending.compress (p : Pending) (moreFlags : UInt32) : Words 8 :=
  let chain := p.chaining
  let v : Words 16 :=
    #v[chain[0], chain[1], chain[2], chain[3], chain[4], chain[5], chain[6], chain[7],
      initial[0], initial[1], initial[2], initial[3],
      p.counter.toUInt32, (p.counter >>> 32).toUInt32, p.length, p.flags ||| moreFlags]
  let v := rounds 7 v p.block
  #v[v[0] ^^^ v[8], v[1] ^^^ v[9], v[2] ^^^ v[10], v[3] ^^^ v[11],
    v[4] ^^^ v[12], v[5] ^^^ v[13], v[6] ^^^ v[14], v[7] ^^^ v[15]]

def blockOf (bytes : List UInt8) : Words 16 :=
  let bytes := bytes.toArray
  Vector.ofFn fun i => wordAt bytes (4 * i.val)

def blockLength : Nat := 64
def chunkLength : Nat := 1024

/-- The last compression of a chunk behind the blocks before it. The fuel bounds the number of
blocks. -/
def chunkFrom (counter : UInt64) : Nat → Words 8 → UInt32 → List UInt8 → Pending
  | 0, chaining, flags, bytes =>
    ⟨chaining, blockOf bytes, counter, bytes.length.toUInt32, flags ||| flagChunkEnd⟩
  | fuel + 1, chaining, flags, bytes =>
    if bytes.length ≤ blockLength then
      ⟨chaining, blockOf bytes, counter, bytes.length.toUInt32, flags ||| flagChunkEnd⟩
    else
      let p : Pending := ⟨chaining, blockOf (bytes.take blockLength), counter, 64, flags⟩
      chunkFrom counter fuel (p.compress 0) 0 (bytes.drop blockLength)

def chunk (counter : UInt64) (bytes : List UInt8) : Pending :=
  chunkFrom counter 15 initial flagChunkStart bytes

/-- The bytes in the left subtree of an input that is longer than a chunk. -/
def leftLength (n : Nat) : Nat :=
  chunkLength <<< ((n - 1) / chunkLength).log2

theorem leftLength_pos (n : Nat) : 0 < leftLength n := by
  rw [leftLength, Nat.shiftLeft_eq]
  exact Nat.mul_pos (by decide) (Nat.two_pow_pos _)

theorem leftLength_lt {n : Nat} (h : chunkLength < n) : leftLength n < n := by
  have hq : (n - 1) / chunkLength ≠ 0 := by
    simp only [chunkLength] at h ⊢
    omega
  have hp := Nat.log2_self_le hq
  have hm := Nat.mul_div_le (n - 1) chunkLength
  have hl : leftLength n ≤ chunkLength * ((n - 1) / chunkLength) := by
    rw [leftLength, Nat.shiftLeft_eq]
    exact Nat.mul_le_mul_left _ hp
  omega

def parent (left right : Words 8) : Pending where
  chaining := initial
  block := left ++ right
  counter := 0
  length := 64
  flags := flagParent

/-- The last compression of the tree over some bytes, whose first chunk has the given number. -/
def tree (counter : UInt64) (bytes : List UInt8) : Pending :=
  if h : chunkLength < bytes.length then
    let n := leftLength bytes.length
    have := leftLength_lt h
    have := leftLength_pos bytes.length
    let left := tree counter (bytes.take n)
    let right := tree (counter + (n / chunkLength).toUInt64) (bytes.drop n)
    parent (left.compress 0) (right.compress 0)
  else chunk counter bytes
termination_by bytes.length
decreasing_by
  · simp only [List.length_take]
    omega
  · simp only [List.length_drop]
    omega

def digest (bytes : List UInt8) : List UInt8 :=
  ((tree 0 bytes).compress flagRoot).toList.flatMap bytesOfWord

def hexByte (b : UInt8) : List Char :=
  [Nat.digitChar (b.toNat / 16), Nat.digitChar (b.toNat % 16)]

def hexDigest (bytes : List UInt8) : String :=
  String.ofList ((digest bytes).flatMap hexByte)

end DependencyAtlas.Digest.Blake3
