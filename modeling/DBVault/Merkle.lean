import DBVault.Digest
import DBVault.Merkle.Pairing

/-! Merkle trees and inclusion proofs, `digest/merkle.go` and
`domain/merkle.go`. Go strings are byte strings, so hashes are kept as the
bytes of their text here; a proof may hold any. -/
namespace DBVault
open Text

/-- A leaf node. The builders allocate one for each index, so the index is what
a pointer to a leaf is compared by. -/
structure Leaf where
  hash : Bytes
  leafIndex : Nat
  chunkID : Bytes := []
  deriving DecidableEq

/-- `domain.MerkleNode`: only leaves have no children, and other nodes have two. -/
inductive MerkleNode where
  | leaf (entry : Leaf)
  | node (hash : Bytes) (left right : MerkleNode)
  deriving DecidableEq

def MerkleNode.hash : MerkleNode → Bytes
  | .leaf entry => entry.hash
  | .node hash _ _ => hash

structure MerkleTree where
  root : MerkleNode
  rootHash : Bytes
  leaves : List Leaf
  leafCount : Nat
  (pageSize logicalSize : Int := 0)
  counted : leafCount = leaves.length

structure MerkleProofStep where
  (hash position : Bytes)
  deriving DecidableEq

def proofPositionLeft : Bytes := utf8 "left"

def proofPositionRight : Bytes := utf8 "right"

structure MerkleProof where
  leafIndex : Int
  leafHash : Bytes
  path : List MerkleProofStep
  rootHash : Bytes
  deriving DecidableEq

def errEmptyMerkleTree : GoError := .other "cannot build merkle tree from empty leaf set"

def errLeafOutOfBounds (index : Int) (total : Nat) : GoError :=
  .other ("merkle leaf index out of bounds: index " ++ decimal index ++ ", total " ++ decimal total)

namespace Hashes
variable (h : Hashes) (key : Bytes)

def digestText (payload : Bytes) : Bytes := utf8 (h.keyed key payload)

def nodeMessage (left right : Bytes) : Bytes := 0x01 :: (left ++ right)

def leafMessage (data : Bytes) : Bytes := 0x00 :: data

def parent (left right : MerkleNode) : MerkleNode :=
  .node (h.digestText key (nodeMessage left.hash right.hash)) left right

def buildTreeFromNodes (leaves : List Leaf) : Result MerkleTree :=
  match leaves with
  | [] => .error errEmptyMerkleTree
  | first :: _ =>
    let level := Pairing.climb (h.parent key) leaves.length (leaves.map .leaf)
    let rootNode := level.headD (.leaf first)
    .ok { root := rootNode, rootHash := rootNode.hash, leaves := leaves,
          leafCount := leaves.length, counted := rfl }

def emptyTree (pageSize : Int) : MerkleTree :=
  let emptyHash := h.digestText key (leafMessage [])
  { root := .leaf ⟨emptyHash, 0, []⟩, rootHash := emptyHash, leaves := [], leafCount := 0,
    pageSize := pageSize, counted := rfl }

def buildTree (leafData : List Bytes) : Result MerkleTree :=
  if leafData.length = 0 then .ok (h.emptyTree key 0)
  else h.buildTreeFromNodes key (leafData.mapIdx fun i data => ⟨h.digestText key (leafMessage data), i, []⟩)

def buildTreeFromHashes (leafHashes : List Bytes) : Result MerkleTree :=
  if leafHashes.length = 0 then .ok (h.emptyTree key 0)
  else h.buildTreeFromNodes key (leafHashes.mapIdx fun i hash => ⟨hash, i, hash⟩)

def buildTreeFromChunks (pageSize : Int) (chunks : List PlainChunk) : Result MerkleTree :=
  if chunks.length = 0 then .ok (h.emptyTree key pageSize)
  else do
    let tree ← h.buildTreeFromNodes key (chunks.mapIdx fun i ch =>
      let cid := utf8 (h.chunkID key pageSize ch.data)
      ⟨cid, i, cid⟩)
    pure { tree with
      -- The sum is an int64.
      pageSize := pageSize, logicalSize := (chunks.map PlainChunk.plaintextSize).sum.bmod (2 ^ 64) }

def stepMessage (current : Bytes) (step : MerkleProofStep) : Bytes :=
  if step.position = proofPositionLeft then nodeMessage step.hash current
  else nodeMessage current step.hash

def stepUp (current : Bytes) (step : MerkleProofStep) : Bytes := h.digestText key (stepMessage current step)

def walk (current : Bytes) (path : List MerkleProofStep) : Bytes := path.foldl (h.stepUp key) current

/-- `MerkleProof.Verify` of a proof that is not nil. -/
def verify (p : MerkleProof) (expectedRoot : Bytes) : Bool :=
  if p.leafHash = [] ∨ p.rootHash = [] ∧ expectedRoot = [] then false
  else
    let targetRoot := if expectedRoot = [] then p.rootHash else expectedRoot
    h.walk key p.leafHash p.path = targetRoot

end Hashes

namespace MerkleNode

def nodeContains : MerkleNode → Leaf → Bool
  | .leaf entry, target => entry.leafIndex = target.leafIndex
  | .node _ left right, target => left.nodeContains target || right.nodeContains target

/-- `collectProofPath`: whether the target was found, and the path extended by
the siblings from the top down. -/
def collectProofPath : MerkleNode → Leaf → List MerkleProofStep → Bool × List MerkleProofStep
  | .leaf entry, target, path => (entry.leafIndex = target.leafIndex, path)
  | .node _ left right, target, path =>
    if left.nodeContains target then
      left.collectProofPath target (path ++ [⟨right.hash, proofPositionRight⟩])
    else if right.nodeContains target then
      right.collectProofPath target (path ++ [⟨left.hash, proofPositionLeft⟩])
    else (false, path)

end MerkleNode

def MerkleTree.generateProof (tree : MerkleTree) (leafIndex : Int) : Result MerkleProof :=
  if tree.leafCount = 0 then .error errEmptyMerkleTree
  else if hBounds : leafIndex < 0 ∨ leafIndex ≥ tree.leafCount then
    .error (errLeafOutOfBounds leafIndex tree.leafCount)
  else
    have hIndex : leafIndex.toNat < tree.leaves.length := by
      have := tree.counted
      omega
    let targetLeaf := tree.leaves[leafIndex.toNat]
    let (found, path) := tree.root.collectProofPath targetLeaf []
    if found then .ok ⟨leafIndex, targetLeaf.hash, path.reverse, tree.rootHash⟩
    else .error (.other ("leaf at index " ++ decimal leafIndex ++ " not found in tree"))

end DBVault
