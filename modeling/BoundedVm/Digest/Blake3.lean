import BoundedVm.Digest.Word

/-! # BLAKE3

The message is cut into chunks of 1024 bytes and each chunk into blocks of 64 bytes. The blocks of a
chunk are chained, the chunks are the leaves of a binary tree whose left subtrees are full, and the
digest is read off the root. `Blake3.digest` is the unkeyed hash of thirty-two bytes. -/

namespace BoundedVm

namespace Blake3

/-- The chaining value before the first block. -/
def initial : List UInt32 :=
  [0x6a09e667, 0xbb67ae85, 0x3c6ef372, 0xa54ff53a, 0x510e527f, 0x9b05688c, 0x1f83d9ab, 0x5be0cd19]

/-- The order in which the words of a block are taken in the next round. -/
def permutation : List Nat :=
  [2, 6, 3, 10, 7, 0, 4, 13, 1, 11, 12, 5, 9, 14, 15, 8]

/-- Marks the first block of a chunk. -/
def chunkStart : UInt32 := 1

/-- Marks the last block of a chunk. -/
def chunkEnd : UInt32 := 2

/-- Marks a block made of two chaining values. -/
def parent : UInt32 := 4

/-- Marks the block that the digest is read from. -/
def root : UInt32 := 8

/-- Mixes two message words into four words of the state. -/
def quarter (v : Array UInt32) (i j k l : Nat) (x y : UInt32) : Array UInt32 :=
  let a := v.getD i 0 + v.getD j 0 + x
  let d := rotateRight (v.getD l 0 ^^^ a) 16
  let c := v.getD k 0 + d
  let b := rotateRight (v.getD j 0 ^^^ c) 12
  let a := a + b + y
  let d := rotateRight (d ^^^ a) 8
  let c := c + d
  let b := rotateRight (b ^^^ c) 7
  (((v.setIfInBounds i a).setIfInBounds j b).setIfInBounds k c).setIfInBounds l d

/-- Mixes the sixteen words of a block into the columns and then the diagonals of the state. -/
def mix (v m : Array UInt32) : Array UInt32 :=
  let w := fun i => m.getD i 0
  let v := quarter v 0 4 8 12 (w 0) (w 1)
  let v := quarter v 1 5 9 13 (w 2) (w 3)
  let v := quarter v 2 6 10 14 (w 4) (w 5)
  let v := quarter v 3 7 11 15 (w 6) (w 7)
  -- the diagonals
  let v := quarter v 0 5 10 15 (w 8) (w 9)
  let v := quarter v 1 6 11 12 (w 10) (w 11)
  let v := quarter v 2 7 8 13 (w 12) (w 13)
  quarter v 3 4 9 14 (w 14) (w 15)

/-- The block with its words in the order of the next round. -/
def permute (m : Array UInt32) : Array UInt32 :=
  (permutation.map fun i => m.getD i 0).toArray

/-- Seven rounds over the state, the block being permuted between them. -/
def rounds : Nat → Array UInt32 → Array UInt32 → Array UInt32
  | 0, v, _ => v
  | n + 1, v, m => rounds n (mix v m) (permute m)

/-- A block still to be compressed: its chaining value, its words, the number of its chunk, the number
of message bytes it holds and its marks. -/
structure Node where
  chaining : List UInt32
  block : List UInt32
  counter : Nat
  length : Nat
  marks : UInt32

namespace Node

/-- The eight words that a node is compressed to under additional marks. -/
def compress (node : Node) (marks : UInt32) : List UInt32 :=
  let start := node.chaining ++ initial.take 4
    ++ [UInt32.ofNat node.counter, UInt32.ofNat (node.counter / UInt32.size), UInt32.ofNat node.length,
      node.marks ||| marks]
  let v := rounds 7 start.toArray node.block.toArray
  (List.range 8).map fun i => v.getD i 0 ^^^ v.getD (i + 8) 0

/-- The chaining value that a node hands on to its parent. -/
def value (node : Node) : List UInt32 :=
  node.compress 0

end Node

/-- The words of a list of bytes, four bytes each, the lowest first. -/
def wordsOfBytes : List UInt8 → List UInt32
  | a :: b :: c :: d :: rest =>
    (a.toUInt32 ||| (b.toUInt32 <<< 8) ||| (c.toUInt32 <<< 16) ||| (d.toUInt32 <<< 24))
      :: wordsOfBytes rest
  | _ => []

/-- The bytes of a word, lowest first. -/
def bytesOfWord (w : UInt32) : List UInt8 :=
  [w.toUInt8, (w >>> 8).toUInt8, (w >>> 16).toUInt8, (w >>> 24).toUInt8]

/-- The node of one block of a chunk, the block being filled up with zeros. -/
def blockNode (chaining : List UInt32) (counter : Nat) (marks : UInt32) (block : List UInt8) : Node :=
  { chaining, counter, marks, length := block.length
    block := wordsOfBytes (block ++ List.replicate (64 - block.length) 0) }

/-- The node of the last block of a chunk, the blocks before it having been chained. -/
def chainBlocks (counter : Nat) (chaining : List UInt32) (marks : UInt32) : List (List UInt8) → Node
  | [] => blockNode chaining counter (marks ||| chunkEnd) []
  | [block] => blockNode chaining counter (marks ||| chunkEnd) block
  | block :: rest => chainBlocks counter (blockNode chaining counter marks block).value 0 rest

/-- The node of a whole chunk. -/
def chunkNode (counter : Nat) (chunk : List UInt8) : Node :=
  chainBlocks counter initial chunkStart (chunks 64 chunk)

/-- The node over two subtrees. -/
def parentNode (left right : Node) : Node :=
  { chaining := initial, block := left.value ++ right.value, counter := 0, length := 64
    marks := parent }

/-- The next layer of the tree: neighbours are joined, and one left over moves up as it is. -/
def layer : List Node → List Node
  | left :: right :: rest => parentNode left right :: layer rest
  | rest => rest

theorem length_layer_le (nodes : List Node) : (layer nodes).length ≤ nodes.length := by
  fun_induction layer nodes with
  | case1 _ _ _ ih => simp only [List.length_cons]; omega
  | case2 => exact Nat.le_refl _

/-- The root of the tree over some leaves. -/
def tree : List Node → Node
  | [] => chunkNode 0 []
  | [node] => node
  | left :: right :: rest => tree (parentNode left right :: layer rest)
termination_by nodes => nodes.length
decreasing_by
  have := length_layer_le rest
  simp only [List.length_cons]
  omega

/-- The BLAKE3 hash of a message, thirty-two bytes long. -/
def digest (message : List UInt8) : List UInt8 :=
  let leaves := (chunks 1024 message).zipIdx.map fun leaf => chunkNode leaf.2 leaf.1
  ((tree leaves).compress root).flatMap bytesOfWord

@[simp] theorem length_digest (message : List UInt8) : (digest message).length = 32 := rfl

end Blake3

end BoundedVm
