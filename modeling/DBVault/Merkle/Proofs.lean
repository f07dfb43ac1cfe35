import DBVault.Merkle
import Mathlib.Data.List.Nodup

/-! The trees the builders make, and that a proof can be generated for every
leaf of them which verifies against the root. -/
namespace DBVault
open List Text Hashes

namespace MerkleNode

def leafNodes : MerkleNode → List Leaf
  | .leaf entry => [entry]
  | .node _ left right => left.leafNodes ++ right.leafNodes

def height : MerkleNode → Nat
  | .leaf _ => 0
  | .node _ left right => max left.height right.height + 1

/-- Internal nodes carry the hash of their children's hashes. -/
def Hashed (h : Hashes) (key : Bytes) : MerkleNode → Prop
  | .leaf _ => True
  | .node hash left right =>
    hash = h.digestText key (Hashes.nodeMessage left.hash right.hash) ∧
      left.Hashed h key ∧ right.Hashed h key

end MerkleNode

variable {h : Hashes} {key : Bytes}

theorem length_hexText (d : Digest) : (utf8 d.hex).length = 64 := by
  have hAscii : ∀ c ∈ d.hex.toList, c.toNat < 128 := by
    intro c hc
    rw [Digest.hex, toList_hexEncode] at hc
    exact (isHex_of_mem hc).ascii
  rw [utf8, encodeRunes_ascii _ hAscii, length_map]
  simp [Digest.hex, d.size]

namespace Hashes

theorem length_digestText (payload : Bytes) : (h.digestText key payload).length = 64 := by
  unfold digestText keyed
  split <;> exact length_hexText _

theorem digestText_ne_nil (payload : Bytes) : h.digestText key payload ≠ [] := by
  intro hNil
  have hLength : (h.digestText key payload).length = 64 := length_digestText payload
  simp [hNil] at hLength

theorem digestText_inj {messages : Set Bytes} (hInj : Set.InjOn (h.keyed key) messages)
    {first second : Bytes} (hFirst : first ∈ messages) (hSecond : second ∈ messages)
    (hEq : h.digestText key first = h.digestText key second) : first = second :=
  hInj hFirst hSecond (utf8_injective hEq)

end Hashes

structure Built (h : Hashes) (key : Bytes) (leaves : List Leaf) (tree : MerkleTree) : Prop where
  leaves_eq : tree.leaves = leaves
  climbed : Pairing.climb (h.parent key) leaves.length (leaves.map .leaf) = [tree.root]
  rootHash_eq : tree.rootHash = tree.root.hash

theorem flatMap_leafNodes (leaves : List Leaf) :
    (leaves.map MerkleNode.leaf).flatMap MerkleNode.leafNodes = leaves := by
  induction leaves with
  | nil => rfl
  | cons first rest ih => simpa [MerkleNode.leafNodes] using ih

theorem Hashes.buildTreeFromNodes_built {leaves : List Leaf} (hNe : leaves ≠ []) :
    ∃ tree, h.buildTreeFromNodes key leaves = .ok tree ∧ Built h key leaves tree := by
  have hLevel : leaves.map MerkleNode.leaf ≠ [] := by simpa using hNe
  have hFuel : (leaves.map MerkleNode.leaf).length ≤ leaves.length + 1 := by simp
  obtain ⟨root, hRoot⟩ : ∃ root, Pairing.climb (h.parent key) leaves.length
      (leaves.map MerkleNode.leaf) = [root] := Pairing.climb_singleton hLevel hFuel
  refine ⟨⟨root, root.hash, leaves, leaves.length, 0, 0, rfl⟩, ?_, rfl, hRoot, rfl⟩
  obtain ⟨first, rest, rfl⟩ := exists_cons_of_ne_nil hNe
  simp only [buildTreeFromNodes, hRoot, headD_cons]

namespace Built
variable {leaves : List Leaf} {tree : MerkleTree} (hBuilt : Built h key leaves tree)

include hBuilt

theorem mem_climbed : tree.root ∈ Pairing.climb (h.parent key) leaves.length (leaves.map MerkleNode.leaf) := by
  rw [hBuilt.climbed]
  exact mem_singleton_self _

theorem inOrder : tree.root.leafNodes = leaves := by
  have hParent : ∀ a b, (h.parent key a b).leafNodes = a.leafNodes ++ b.leafNodes := fun _ _ => rfl
  have hRead := Pairing.climb_flatMap hParent leaves.length (leaves.map .leaf)
  simpa [hBuilt.climbed, flatMap_leafNodes] using hRead

theorem hashed : tree.root.Hashed h key := by
  refine Pairing.forall_climb (fun a b ha hb => ⟨rfl, ha, hb⟩) leaves.length ?_ _ hBuilt.mem_climbed
  simp [MerkleNode.Hashed]

theorem height_le : tree.root.height ≤ Nat.clog 2 leaves.length := by
  have hLeaves : ∀ node ∈ leaves.map MerkleNode.leaf, node.height ≤ 0 := by simp [MerkleNode.height]
  have hParent : ∀ a b, (h.parent key a b).height ≤ max a.height b.height + 1 := fun _ _ => le_refl _
  simpa using Pairing.climb_height hParent leaves.length hLeaves _ hBuilt.mem_climbed

end Built

namespace Hashes

theorem walk_snoc (current : Bytes) (path : List MerkleProofStep) (step : MerkleProofStep) :
    h.walk key current (path ++ [step]) = h.stepUp key (h.walk key current path) step := by
  simp [walk]

theorem stepUp_left (current sibling : Bytes) :
    h.stepUp key current ⟨sibling, proofPositionLeft⟩ = h.digestText key (nodeMessage sibling current) := by
  simp [stepUp, stepMessage]

theorem stepUp_right (current sibling : Bytes) :
    h.stepUp key current ⟨sibling, proofPositionRight⟩ = h.digestText key (nodeMessage current sibling) := by
  have hRight : proofPositionRight ≠ proofPositionLeft := by decide
  simp [stepUp, stepMessage, hRight]

end Hashes

namespace MerkleNode

variable {node : MerkleNode} {target : Leaf}

theorem nodeContains_iff :
    node.nodeContains target = true ↔ ∃ entry ∈ node.leafNodes, entry.leafIndex = target.leafIndex := by
  induction node with
  | leaf entry => simp [nodeContains, leafNodes]
  | node hash left right ihLeft ihRight => simp [nodeContains, leafNodes, ihLeft, ihRight, or_and_right, exists_or]

theorem collectProofPath_found (hHashed : node.Hashed h key) (hMem : target ∈ node.leafNodes)
    (hOnly : ∀ entry ∈ node.leafNodes, entry.leafIndex = target.leafIndex → entry = target)
    (path : List MerkleProofStep) : ∃ steps, node.collectProofPath target path = (true, path ++ steps) ∧
      h.walk key target.hash steps.reverse = node.hash ∧ steps.length ≤ node.height := by
  induction node generalizing path with
  | leaf entry =>
    obtain rfl : target = entry := by simpa [leafNodes] using hMem
    exact ⟨[], by simp [collectProofPath], rfl, le_refl _⟩
  | node hash left right ihLeft ihRight =>
    obtain ⟨hHash, hLeft, hRight⟩ := hHashed
    simp only [leafNodes, mem_append] at hMem hOnly
    by_cases hIn : left.nodeContains target = true
    · obtain ⟨entry, hEntry, hSame⟩ := nodeContains_iff.mp hIn
      obtain rfl : entry = target := hOnly entry (.inl hEntry) hSame
      obtain ⟨steps, hFound, hWalk, hLength⟩ := ihLeft hLeft hEntry
        (fun e he => hOnly e (.inl he)) (path ++ [⟨right.hash, proofPositionRight⟩])
      refine ⟨⟨right.hash, proofPositionRight⟩ :: steps, ?_, ?_, ?_⟩
      · simp [collectProofPath, hIn, hFound]
      · rw [reverse_cons, Hashes.walk_snoc, hWalk, Hashes.stepUp_right]
        exact hHash.symm
      · simp only [length_cons, height]
        omega
    · have hNotLeft : target ∉ left.leafNodes := fun hLeftMem => hIn (nodeContains_iff.mpr ⟨target, hLeftMem, rfl⟩)
      have hRightMem : target ∈ right.leafNodes := hMem.resolve_left hNotLeft
      have hInRight := nodeContains_iff.mpr ⟨target, hRightMem, rfl⟩
      obtain ⟨steps, hFound, hWalk, hLength⟩ := ihRight hRight hRightMem
        (fun e he => hOnly e (.inr he)) (path ++ [⟨left.hash, proofPositionLeft⟩])
      refine ⟨⟨left.hash, proofPositionLeft⟩ :: steps, ?_, ?_, ?_⟩
      · simp [collectProofPath, hIn, hInRight, hFound]
      · rw [reverse_cons, Hashes.walk_snoc, hWalk, Hashes.stepUp_left]
        exact hHash.symm
      · simp only [length_cons, height]
        omega

theorem hash_ne_nil (hHashed : node.Hashed h key)
    (hLeaves : ∀ entry ∈ node.leafNodes, entry.hash ≠ []) : node.hash ≠ [] := by
  cases node with
  | leaf entry => exact hLeaves entry (by simp [leafNodes])
  | node hash left right =>
    rw [MerkleNode.hash, hHashed.1]
    exact Hashes.digestText_ne_nil _

end MerkleNode

/-- What is expected of a tree over leaves with these hashes. -/
structure Proves (h : Hashes) (key : Bytes) (texts : List Bytes) (tree : MerkleTree) : Prop where
  inOrder : tree.root.leafNodes = tree.leaves
  hashes : tree.leaves.map (·.hash) = texts
  once : tree.leaves.map (·.leafIndex) = List.range texts.length
  proofs : ∀ (i : Nat) (hi : i < texts.length), ∃ p, tree.generateProof i = .ok p ∧
    p.leafIndex = i ∧ p.leafHash = texts[i] ∧ h.verify key p tree.rootHash = true ∧
      p.path.length ≤ Nat.clog 2 texts.length

variable {tree : MerkleTree}

theorem MerkleTree.generateProof_found {i : Nat} (hi : i < tree.leaves.length)
    {path : List MerkleProofStep} (hFound : tree.root.collectProofPath tree.leaves[i] [] = (true, path)) :
    tree.generateProof i = .ok ⟨i, tree.leaves[i].hash, path.reverse, tree.rootHash⟩ := by
  have hCount := tree.counted
  have hBounds : ¬ ((i : Int) < 0 ∨ (i : Int) ≥ tree.leafCount) := by omega
  unfold generateProof
  rw [if_neg (by omega), dif_neg hBounds]
  simp [hFound]

variable {p : MerkleProof} {root : Bytes}

theorem Hashes.verify_of_walk (hLeaf : p.leafHash ≠ [])
    (hRoot : root ≠ []) : h.verify key p root = true ↔ h.walk key p.leafHash p.path = root := by
  simp [verify, hLeaf, hRoot]

theorem Hashes.walk_of_verify (hRoot : root ≠ [])
    (hVerified : h.verify key p root = true) : h.walk key p.leafHash p.path = root := by
  simp only [verify, hRoot, and_false, or_false, if_false] at hVerified
  split at hVerified
  · cases hVerified
  · exact of_decide_eq_true hVerified

theorem Built.proves {texts : List Bytes} {leaves : List Leaf}
    (hBuilt : Built h key leaves tree) (hTexts : leaves.map (·.hash) = texts)
    (hOnce : leaves.map (·.leafIndex) = List.range texts.length)
    (hNe : ∀ text ∈ texts, text ≠ []) : Proves h key texts tree := by
  subst hTexts
  have hInOrder := hBuilt.inOrder
  have hHashed := hBuilt.hashed
  have hHeight := hBuilt.height_le
  obtain ⟨rfl, -, hRootHash⟩ := hBuilt
  refine ⟨hInOrder, rfl, hOnce, ?_⟩
  intro i hi
  have hi' : i < tree.leaves.length := by simpa using hi
  have hLeaf : tree.leaves[i] ∈ tree.leaves := getElem_mem hi'
  have hMem : tree.leaves[i] ∈ tree.root.leafNodes := by rwa [hInOrder]
  have hDistinct : ∀ entry ∈ tree.root.leafNodes,
      entry.leafIndex = (tree.leaves[i]).leafIndex → entry = tree.leaves[i] := by
    intro entry hEntry hSame
    have hNodup : (tree.leaves.map (·.leafIndex)).Nodup := hOnce ▸ nodup_range
    exact inj_on_of_nodup_map hNodup (hInOrder ▸ hEntry) hLeaf hSame
  obtain ⟨steps, hFound, hWalk, hLength⟩ := MerkleNode.collectProofPath_found hHashed hMem hDistinct []
  refine ⟨_, MerkleTree.generateProof_found hi' hFound, rfl, by simp, ?_, ?_⟩
  · have hLeafNe : tree.leaves[i].hash ≠ [] := hNe _ (mem_map_of_mem hLeaf)
    have hRootNe : tree.root.hash ≠ [] := by
      refine MerkleNode.hash_ne_nil hHashed fun entry hEntry => hNe _ ?_
      exact mem_map_of_mem (hInOrder ▸ hEntry)
    rw [hRootHash]
    exact (Hashes.verify_of_walk hLeafNe hRootNe).mpr hWalk
  · simpa using hLength.trans hHeight

variable {α : Type}

theorem map_hash_mapIdx (text chunkID : α → Bytes) (items : List α) :
    (items.mapIdx fun i item => (⟨text item, i, chunkID item⟩ : Leaf)).map (·.hash) = items.map text :=
  ext_getElem (by simp) (by simp)

theorem Hashes.built_mapIdx (h : Hashes) (key : Bytes) {items : List α} (hNe : items ≠ [])
    (text chunkID : α → Bytes) (hText : ∀ item ∈ items, text item ≠ []) :
    ∃ tree, h.buildTreeFromNodes key (items.mapIdx fun i item => ⟨text item, i, chunkID item⟩) =
      .ok tree ∧ ∀ pageSize logicalSize, Proves h key (items.map text)
        { tree with pageSize := pageSize, logicalSize := logicalSize } := by
  have hLeaves : (items.mapIdx fun i item => (⟨text item, i, chunkID item⟩ : Leaf)) ≠ [] := by simpa using hNe
  obtain ⟨tree, hTree, hBuilt⟩ := h.buildTreeFromNodes_built hLeaves
  refine ⟨tree, hTree, ?_⟩
  intro pageSize logicalSize
  have hBuilt' : Built h key (items.mapIdx fun i item => ⟨text item, i, chunkID item⟩)
      { tree with pageSize := pageSize, logicalSize := logicalSize } :=
    ⟨hBuilt.leaves_eq, hBuilt.climbed, hBuilt.rootHash_eq⟩
  refine hBuilt'.proves (map_hash_mapIdx text chunkID items) ?_ ?_
  · exact ext_getElem (by simp) (by simp)
  · simpa using hText

namespace Hashes
variable (h key)

/-- Every builder makes a tree with the leaves in order, each once, and a proof
of logarithmic length for every leaf. -/
theorem proofs_complete :
    (∀ leafData : List Bytes, leafData ≠ [] → ∃ tree, h.buildTree key leafData = .ok tree ∧
      Proves h key (leafData.map fun data => h.digestText key (leafMessage data)) tree) ∧
    (∀ leafHashes : List Bytes, leafHashes ≠ [] → (∀ hash ∈ leafHashes, hash ≠ []) →
      ∃ tree, h.buildTreeFromHashes key leafHashes = .ok tree ∧ Proves h key leafHashes tree) ∧
    (∀ (pageSize : Int) (chunks : List PlainChunk), chunks ≠ [] →
      ∃ tree, h.buildTreeFromChunks key pageSize chunks = .ok tree ∧
        Proves h key (chunks.map fun ch => utf8 (h.chunkID key pageSize ch.data)) tree) := by
  refine ⟨?_, ?_, ?_⟩
  · intro leafData hNe
    obtain ⟨tree, hTree, hProves⟩ := h.built_mapIdx key hNe
      (fun data => h.digestText key (leafMessage data)) (fun _ => [])
      (fun _ _ => digestText_ne_nil _)
    refine ⟨tree, ?_, hProves tree.pageSize tree.logicalSize⟩
    rw [buildTree, if_neg (by simpa using hNe), hTree]
  · intro leafHashes hNe hText
    obtain ⟨tree, hTree, hProves⟩ := h.built_mapIdx key hNe id id hText
    refine ⟨tree, ?_, by simpa using hProves tree.pageSize tree.logicalSize⟩
    rw [buildTreeFromHashes, if_neg (by simpa using hNe)]
    exact hTree
  · intro pageSize chunks hNe
    let text (ch : PlainChunk) : Bytes := utf8 (h.chunkID key pageSize ch.data)
    have hText : ∀ ch ∈ chunks, text ch ≠ [] := by
      intro ch _ hNil
      have hLength : (text ch).length = 64 := length_hexText _
      simp [hNil] at hLength
    obtain ⟨tree, hTree, hProves⟩ := h.built_mapIdx key hNe text text hText
    refine ⟨_, ?_, hProves pageSize ((chunks.map PlainChunk.plaintextSize).sum.bmod (2 ^ 64))⟩
    rw [buildTreeFromChunks, if_neg (by simpa using hNe)]
    simp only [text] at hTree
    simp only [hTree]
    rfl

end Hashes

namespace Merkle.Sample

def shorten (payload : Bytes) : Digest := ⟨(payload ++ List.replicate 32 0).take 32, length_take_padded payload⟩

def hashes : Hashes := ⟨fun key payload => shorten (key ++ payload), shorten⟩

end Merkle.Sample

open Merkle.Sample in
theorem proofs_complete_sample :
    (∃ tree, hashes.buildTree [] [[1], [2], [1]] = .ok tree ∧
      Proves hashes [] ([[1], [2], [1]].map fun data => hashes.digestText [] (leafMessage data)) tree) ∧
    ∃ tree, hashes.buildTreeFromHashes [7] [[1], [1]] = .ok tree ∧ Proves hashes [7] [[1], [1]] tree :=
  ⟨(Hashes.proofs_complete hashes []).1 _ (by decide),
    (Hashes.proofs_complete hashes [7]).2.1 _ (by decide) (by decide)⟩

end DBVault
