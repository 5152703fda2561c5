/-! The BLAKE3 hash. Input is cut into chunks of 1024 bytes and a chunk into blocks of 64. A chunk
is folded block by block into a chaining value, neighbouring values are joined pairwise into a tree,
and the node at its root gives the digest. -/

namespace TapeMachine.Digest

abbrev Words8 := Vector UInt32 8
abbrev Words16 := Vector UInt32 16

def initialVector : Words8 :=
  #v[0x6A09E667, 0xBB67AE85, 0x3C6EF372, 0xA54FF53A, 0x510E527F, 0x9B05688C, 0x1F83D9AB, 0x5BE0CD19]

def chunkStart : UInt32 := 1
def chunkEnd : UInt32 := 2
def parentNode : UInt32 := 4
def rootNode : UInt32 := 8

def rotateRight (word count : UInt32) : UInt32 := (word >>> count) ||| (word <<< (32 - count))

def mix (v : Words16) (a b c d : Fin 16) (x y : UInt32) : Words16 :=
  let va := v[a] + v[b] + x
  let vd := rotateRight (v[d] ^^^ va) 16
  let vc := v[c] + vd
  let vb := rotateRight (v[b] ^^^ vc) 12
  let va := va + vb + y
  let vd := rotateRight (vd ^^^ va) 8
  let vc := vc + vd
  let vb := rotateRight (vb ^^^ vc) 7
  (((v.set a va).set b vb).set c vc).set d vd

/-- Mixes the columns of the state, then its diagonals. -/
def round (v m : Words16) : Words16 :=
  let v := mix v 0 4 8 12 m[0] m[1]
  let v := mix v 1 5 9 13 m[2] m[3]
  let v := mix v 2 6 10 14 m[4] m[5]
  let v := mix v 3 7 11 15 m[6] m[7]
  let v := mix v 0 5 10 15 m[8] m[9]
  let v := mix v 1 6 11 12 m[10] m[11]
  let v := mix v 2 7 8 13 m[12] m[13]
  mix v 3 4 9 14 m[14] m[15]

/-- The order in which a round's message words enter the next round. -/
def schedule (m : Words16) : Words16 :=
  #v[m[2], m[6], m[3], m[10], m[7], m[0], m[4], m[13], m[1], m[11], m[12], m[5], m[9], m[14], m[15],
    m[8]]

def rounds : Nat → Words16 → Words16 → Words16
  | 0, v, _ => v
  | n + 1, v, m => rounds n (round v m) (schedule m)

/-- A compression that has not been carried out, so that the root of the tree can be marked. -/
structure Node where
  chaining : Words8
  block : Words16
  counter : UInt64
  length : UInt32
  flags : UInt32

def Node.compress (node : Node) : Words8 :=
  let h := node.chaining
  let v : Words16 := #v[h[0], h[1], h[2], h[3], h[4], h[5], h[6], h[7],
    initialVector[0], initialVector[1], initialVector[2], initialVector[3],
    node.counter.toUInt32, (node.counter >>> 32).toUInt32, node.length, node.flags]
  let v := rounds 7 v node.block
  #v[v[0] ^^^ v[8], v[1] ^^^ v[9], v[2] ^^^ v[10], v[3] ^^^ v[11],
    v[4] ^^^ v[12], v[5] ^^^ v[13], v[6] ^^^ v[14], v[7] ^^^ v[15]]

def Node.parent (left right : Node) : Node :=
  ⟨initialVector, left.compress ++ right.compress, 0, 64, parentNode⟩

/-- Cuts a list into pieces of `size`, the last one possibly shorter; there is always a last one. -/
def pieces {α : Type} (size : Nat) (xs : List α) : List (List α) :=
  if 0 < size ∧ size < xs.length then xs.take size :: pieces size (xs.drop size) else [xs]
  termination_by xs.length
  decreasing_by simp only [List.length_drop]; omega

/-- The little-endian word at position `i` of a block padded with zeros. -/
def wordAt (bytes : Array UInt8) (i : Nat) : UInt32 :=
  let byte (k : Nat) : UInt32 := (bytes.getD (4 * i + k) 0).toUInt32
  byte 0 ||| (byte 1 <<< 8) ||| (byte 2 <<< 16) ||| (byte 3 <<< 24)

def blockNode (chaining : Words8) (counter : UInt64) (flags : UInt32) (bytes : List UInt8) : Node :=
  let block := bytes.toArray
  ⟨chaining, Vector.ofFn fun i => wordAt block i, counter, UInt32.ofNat bytes.length, flags⟩

/-- The node of a chunk given by its blocks; the last block is left to be compressed. -/
def chunkNode (counter : UInt64) : Words8 → UInt32 → List (List UInt8) → Node
  | chaining, flags, [] => blockNode chaining counter (flags ||| chunkEnd) []
  | chaining, flags, [last] => blockNode chaining counter (flags ||| chunkEnd) last
  | chaining, flags, block :: rest =>
    chunkNode counter (blockNode chaining counter flags block).compress 0 rest

/-- Joins neighbours; an odd one at the end moves up as it is. -/
def joinPairs : List Node → List Node
  | left :: right :: rest => Node.parent left right :: joinPairs rest
  | rest => rest

theorem length_joinPairs_le (nodes : List Node) : (joinPairs nodes).length ≤ nodes.length := by
  fun_induction joinPairs nodes with
  | case1 left right rest ih => simp only [List.length_cons]; omega
  | case2 rest => exact Nat.le_refl _

def joinAll (first : Node) (rest : List Node) : Node :=
  match rest with
  | [] => first
  | second :: more => joinAll (Node.parent first second) (joinPairs more)
  termination_by rest.length
  decreasing_by
    have := length_joinPairs_le more
    simp only [List.length_cons]; omega

def rootOf (input : List UInt8) : Node :=
  let chunks := (pieces 1024 input).mapIdx fun i chunk =>
    chunkNode (UInt64.ofNat i) initialVector chunkStart (pieces 64 chunk)
  match chunks with
  | [] => blockNode initialVector 0 (chunkStart ||| chunkEnd) []
  | first :: rest => joinAll first rest

def wordBytes (word : UInt32) : List UInt8 :=
  [word.toUInt8, (word >>> 8).toUInt8, (word >>> 16).toUInt8, (word >>> 24).toUInt8]

def digest (input : List UInt8) : List UInt8 :=
  let root := rootOf input
  ({ root with flags := root.flags ||| rootNode }.compress.toList.map wordBytes).flatten

def hexByte (byte : UInt8) : List Char :=
  [Nat.digitChar (byte.toNat / 16), Nat.digitChar (byte.toNat % 16)]

def hex (bytes : List UInt8) : String := String.ofList (bytes.map hexByte).flatten

end TapeMachine.Digest
