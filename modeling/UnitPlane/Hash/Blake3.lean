/-!
# `UnitPlane.Hash.Blake3`: the BLAKE3 hash

The input is cut into chunks of 1024 bytes, and each chunk into blocks of 64 bytes that are
compressed one after another. The chunks are the leaves of a binary tree whose left subtrees are
full: the left part of `n` chunks has as many as the largest power of two below `n`. A node of the
tree is kept as the input of its last compression, because the root is compressed with a flag of its
own.
-/

set_option autoImplicit false

namespace UnitPlane.Blake3

/-- Eight words that one compression hands to the next. -/
abbrev Chain := Vector UInt32 8

/-- Sixteen words of a message block. -/
abbrev Block := Vector UInt32 16

/-- The chain that every chunk starts with. -/
def initialChain : Chain :=
  #v[0x6A09E667, 0xBB67AE85, 0x3C6EF372, 0xA54FF53A, 0x510E527F, 0x9B05688C, 0x1F83D9AB, 0x5BE0CD19]

/-- Marks the first block of a chunk. -/
def chunkStart : UInt32 := 1
/-- Marks the last block of a chunk. -/
def chunkEnd : UInt32 := 2
/-- Marks a node with two children. -/
def parent : UInt32 := 4
/-- Marks the root of the tree. -/
def root : UInt32 := 8

/-- A word rotated to the right. -/
def rotateRight (w : UInt32) (n : UInt32) : UInt32 := (w >>> n) ||| (w <<< (32 - n))

/-- Mixes two message words into one column or diagonal of the state. -/
def mix (v : Block) (a b c d : Fin 16) (x y : UInt32) : Block :=
  let va := v[a] + v[b] + x
  let vd := rotateRight (v[d] ^^^ va) 16
  let vc := v[c] + vd
  let vb := rotateRight (v[b] ^^^ vc) 12
  let va := va + vb + y
  let vd := rotateRight (vd ^^^ va) 8
  let vc := vc + vd
  let vb := rotateRight (vb ^^^ vc) 7
  (((v.set a va).set b vb).set c vc).set d vd

/-- Mixes the four columns and then the four diagonals of the state with a block. -/
def round (v m : Block) : Block :=
  let v := mix v 0 4 8 12 m[0] m[1]
  let v := mix v 1 5 9 13 m[2] m[3]
  let v := mix v 2 6 10 14 m[4] m[5]
  let v := mix v 3 7 11 15 m[6] m[7]
  let v := mix v 0 5 10 15 m[8] m[9]
  let v := mix v 1 6 11 12 m[10] m[11]
  let v := mix v 2 7 8 13 m[12] m[13]
  mix v 3 4 9 14 m[14] m[15]

/-- The order in which the next round takes the words of a block. -/
def permute (m : Block) : Block :=
  #v[m[2], m[6], m[3], m[10], m[7], m[0], m[4], m[13], m[1], m[11], m[12], m[5], m[9], m[14], m[15],
    m[8]]

/-- The state and the block after a number of rounds. -/
def rounds : (n : Nat) → (v m : Block) → Block
  | 0, v, _ => v
  | n + 1, v, m => rounds n (round v m) (permute m)

/-- The input of one compression. -/
structure Node where
  chain : Chain
  block : Block
  counter : UInt64
  length : UInt32
  flags : UInt32

/-- The chain after a compression. -/
def Node.compress (n : Node) : Chain :=
  let v : Block :=
    (n.chain ++ initialChain.take 4 ++
      #v[n.counter.toUInt32, (n.counter >>> 32).toUInt32, n.length, n.flags]).cast (by decide)
  let v := rounds 7 v n.block
  Vector.ofFn fun i : Fin 8 => v[i.val] ^^^ v[i.val + 8]

/-- The word of four bytes, the lowest first; missing bytes are zero. -/
def word (bytes : List UInt8) : UInt32 :=
  (bytes.take 4).foldr (fun b w => (w <<< 8) ||| b.toUInt32) 0

/-- The block of up to 64 bytes; missing bytes are zero. -/
def block (bytes : List UInt8) : Block :=
  Vector.ofFn fun i : Fin 16 => word (bytes.drop (4 * i.val))

/-- The size of a block in bytes. -/
def blockSize : Nat := 64

/-- The size of a chunk in bytes. -/
def chunkSize : Nat := 1024

/-- The last compression of the rest of a chunk, after the blocks that led to `chain`. -/
def chunkNode (counter : UInt64) (chain : Chain) (start : UInt32) (bytes : List UInt8) : Node :=
  if _h : blockSize < bytes.length then
    let first : Node := ⟨chain, block (bytes.take blockSize), counter, blockSize.toUInt32, start⟩
    chunkNode counter first.compress 0 (bytes.drop blockSize)
  else ⟨chain, block bytes, counter, bytes.length.toUInt32, start ||| chunkEnd⟩
termination_by bytes.length
decreasing_by
  have : blockSize = 64 := rfl
  simp only [List.length_drop]
  omega

/-- The compression of a node from the chains of its children. -/
def parentNode (left right : Node) : Node :=
  ⟨initialChain, (left.compress ++ right.compress).cast (by decide), 0, blockSize.toUInt32, parent⟩

/-- The bytes of the left subtree of an input of `n` bytes, which is more than one chunk. -/
def leftSize (n : Nat) : Nat := chunkSize * Nat.pow 2 ((n - 1) / chunkSize).log2

/-- The left part is not empty, so the right one is shorter than the whole. -/
theorem leftSize_pos (n : Nat) : 0 < leftSize n :=
  Nat.mul_pos (by decide) (Nat.two_pow_pos _)

/-- The left part is shorter than the whole if there is more than one chunk. -/
theorem leftSize_lt {n : Nat} (h : chunkSize < n) : leftSize n < n := by
  have hc : chunkSize = 1024 := rfl
  have hq : (n - 1) / chunkSize ≠ 0 := by
    rw [hc] at h ⊢
    omega
  have h₁ : Nat.pow 2 ((n - 1) / chunkSize).log2 ≤ (n - 1) / chunkSize := Nat.log2_self_le hq
  have h₂ : chunkSize * ((n - 1) / chunkSize) ≤ n - 1 := Nat.mul_div_le _ _
  have h₃ := Nat.mul_le_mul_left chunkSize h₁
  unfold leftSize
  omega

/-- The node of the chunks of an input, the first of which has the given number. -/
def treeNode (counter : Nat) (bytes : List UInt8) : Node :=
  if _h : chunkSize < bytes.length then
    let left := leftSize bytes.length
    parentNode (treeNode counter (bytes.take left))
      (treeNode (counter + left / chunkSize) (bytes.drop left))
  else chunkNode counter.toUInt64 initialChain chunkStart bytes
termination_by bytes.length
decreasing_by
  · have := leftSize_lt _h
    simp only [List.length_take]
    omega
  · have := leftSize_lt _h
    have := leftSize_pos bytes.length
    simp only [List.length_drop]
    omega

/-- The four bytes of a word, the lowest first. -/
def wordBytes (w : UInt32) : List UInt8 :=
  [w.toUInt8, (w >>> 8).toUInt8, (w >>> 16).toUInt8, (w >>> 24).toUInt8]

/-- The hash of an input, 32 bytes. -/
def hash (bytes : List UInt8) : List UInt8 :=
  let top := treeNode 0 bytes
  ({ top with flags := top.flags ||| root } : Node).compress.toList.flatMap wordBytes

/-- The two hexadecimal digits of a byte. -/
def hexByte (b : UInt8) : List Char :=
  [Nat.digitChar (b.toNat / 16), Nat.digitChar (b.toNat % 16)]

/-- Bytes as hexadecimal digits. -/
def hex (bytes : List UInt8) : String := String.ofList (bytes.flatMap hexByte)

end UnitPlane.Blake3
