import DBVault.Merkle.Proofs
import Mathlib.Data.List.Induction

/-! What a root hash says about the leaves, where the hash has no collisions
among the messages that are hashed. -/
namespace DBVault
open List Text Hashes MerkleNode

variable {h : Hashes} {key : Bytes}

def MerkleNode.messages : MerkleNode → List Bytes
  | .leaf _ => []
  | .node _ left right => nodeMessage left.hash right.hash :: (left.messages ++ right.messages)

/-- A hashed tree over texts of the length of a hash, with all its messages
among the given ones. -/
structure Covered (h : Hashes) (key : Bytes) (messages : Set Bytes) (node : MerkleNode) : Prop where
  hashed : node.Hashed h key
  sized : ∀ entry ∈ node.leafNodes, entry.hash.length = 64
  internal : ∀ message ∈ node.messages, message ∈ messages

def OfData (h : Hashes) (key : Bytes) (messages : Set Bytes) (node : MerkleNode) : Prop :=
  ∀ entry ∈ node.leafNodes, ∃ data, entry.hash = h.digestText key (leafMessage data) ∧
    leafMessage data ∈ messages

variable {messages : Set Bytes} {hash : Bytes} {left right node other : MerkleNode}

namespace Covered
section
variable (hNode : Covered h key messages (.node hash left right))
include hNode

theorem left_child : Covered h key messages left where
  hashed := hNode.hashed.2.1
  sized entry hEntry := hNode.sized entry (mem_append_left _ hEntry)
  internal message hMem := hNode.internal message (mem_cons_of_mem _ (mem_append_left _ hMem))

theorem right_child : Covered h key messages right where
  hashed := hNode.hashed.2.2
  sized entry hEntry := hNode.sized entry (mem_append_right _ hEntry)
  internal message hMem := hNode.internal message (mem_cons_of_mem _ (mem_append_right _ hMem))

theorem mem_messages : nodeMessage left.hash right.hash ∈ messages := hNode.internal _ mem_cons_self

end

theorem length_hash (hNode : Covered h key messages node) : node.hash.length = 64 := by
  cases node with
  | leaf entry => exact hNode.sized entry (by simp [leafNodes])
  | node hash left right =>
    rw [MerkleNode.hash, hNode.hashed.1]
    exact length_digestText _

theorem message_eq (hNode : Covered h key messages (.node hash left right))
    (hInj : Set.InjOn (h.keyed key) messages) (hMessage : message ∈ messages)
    (hEq : h.digestText key message = hash) : message = nodeMessage left.hash right.hash :=
  digestText_inj hInj hMessage hNode.mem_messages (hEq.trans hNode.hashed.1)

end Covered

theorem nodeMessage_inj (hLength : a.length = c.length)
    (hEq : nodeMessage a b = nodeMessage c d) : a = c ∧ b = d :=
  append_inj (List.cons.inj hEq).2 hLength

theorem nodeMessage_inj_right (hLength : b.length = d.length)
    (hEq : nodeMessage a b = nodeMessage c d) : a = c ∧ b = d :=
  append_inj' (List.cons.inj hEq).2 hLength

theorem leafMessage_ne_nodeMessage (data a b : Bytes) : leafMessage data ≠ nodeMessage a b := by
  simp [leafMessage, nodeMessage]

theorem Covered.children_eq
    (hInj : Set.InjOn (h.keyed key) messages) (hNode : Covered h key messages (.node hash left right))
    (hOther : Covered h key messages (.node hash' left' right')) (hEq : hash = hash') :
    left.hash = left'.hash ∧ right.hash = right'.hash := by
  have hMessage := hOther.message_eq hInj hNode.mem_messages (hNode.hashed.1.symm.trans hEq)
  refine nodeMessage_inj ?_ hMessage
  rw [hNode.left_child.length_hash, hOther.left_child.length_hash]

def MerkleNode.SameShape : MerkleNode → MerkleNode → Prop
  | .leaf _, .leaf _ => True
  | .node _ left right, .node _ left' right' => left.SameShape left' ∧ right.SameShape right'
  | _, _ => False

theorem leaves_of_shape (hInj : Set.InjOn (h.keyed key) messages) (hNode : Covered h key messages node)
    (hOther : Covered h key messages other) (hShape : node.SameShape other) (hEq : node.hash = other.hash) :
    node.leafNodes.map (·.hash) = other.leafNodes.map (·.hash) := by
  induction node generalizing other with
  | leaf entry =>
    cases other with
    | leaf entry' => simpa [leafNodes, MerkleNode.hash] using hEq
    | node hash' left' right' => exact hShape.elim
  | node hash left right ihLeft ihRight =>
    cases other with
    | leaf entry' => exact hShape.elim
    | node hash' left' right' =>
      obtain ⟨hLeft, hRight⟩ := hNode.children_eq hInj hOther hEq
      have hLeaves := ihLeft hNode.left_child hOther.left_child hShape.1 hLeft
      have hLeaves' := ihRight hNode.right_child hOther.right_child hShape.2 hRight
      simp only [leafNodes, map_append, hLeaves, hLeaves']

theorem OfData.left_child (hNode : OfData h key messages (.node hash left right)) : OfData h key messages left :=
  fun entry hEntry => hNode entry (mem_append_left _ hEntry)

theorem OfData.right_child (hNode : OfData h key messages (.node hash left right)) : OfData h key messages right :=
  fun entry hEntry => hNode entry (mem_append_right _ hEntry)

theorem leaf_ne_node (hInj : Set.InjOn (h.keyed key) messages)
    (hLeaf : OfData h key messages (.leaf entry)) (hMessage : message ∈ messages)
    (hForm : message = nodeMessage a b) : h.digestText key message ≠ entry.hash := by
  obtain ⟨data, hData, hMem⟩ := hLeaf entry (by simp [leafNodes])
  intro hEq
  have hSame := digestText_inj hInj hMem hMessage (hData.symm.trans hEq.symm)
  exact leafMessage_ne_nodeMessage _ _ _ (hSame.trans hForm)

theorem sameShape_of_data (hInj : Set.InjOn (h.keyed key) messages) (hNode : Covered h key messages node)
    (hOther : Covered h key messages other) (hData : OfData h key messages node)
    (hData' : OfData h key messages other) (hEq : node.hash = other.hash) : node.SameShape other := by
  induction node generalizing other with
  | leaf entry =>
    cases other with
    | leaf entry' => trivial
    | node hash' left' right' =>
      exact absurd (hOther.hashed.1.symm.trans hEq.symm) (leaf_ne_node hInj hData hOther.mem_messages rfl)
  | node hash left right ihLeft ihRight =>
    cases other with
    | leaf entry' => exact absurd (hNode.hashed.1.symm.trans hEq) (leaf_ne_node hInj hData' hNode.mem_messages rfl)
    | node hash' left' right' =>
      obtain ⟨hLeft, hRight⟩ := hNode.children_eq hInj hOther hEq
      exact ⟨ihLeft hNode.left_child hOther.left_child hData.left_child hData'.left_child hLeft,
        ihRight hNode.right_child hOther.right_child hData.right_child hData'.right_child hRight⟩

section
variable {leaves leaves' : List Leaf} {tree tree' : MerkleTree}

theorem Built.sameShape (hBuilt : Built h key leaves tree) (hBuilt' : Built h key leaves' tree')
    (hLength : leaves.length = leaves'.length) : tree.root.SameShape tree'.root := by
  have hLeaves : List.Forall₂ MerkleNode.SameShape (leaves.map .leaf) (leaves'.map .leaf) := by
    rw [forall₂_map_left_iff, forall₂_map_right_iff, forall₂_iff_zip]
    exact ⟨hLength, fun _ => trivial⟩
  have hParent : ∀ a b a' b', a.SameShape a' → b.SameShape b' →
      (h.parent key a b).SameShape (h.parent key a' b') :=
    fun _ _ _ _ hLeft hRight => ⟨hLeft, hRight⟩
  have hRoots := Pairing.climb_related hParent leaves.length hLeaves
  rw [hBuilt.climbed, hLength, hBuilt'.climbed] at hRoots
  exact (forall₂_cons.mp hRoots).1

theorem Built.covered (hBuilt : Built h key leaves tree) (hSized : ∀ entry ∈ leaves, entry.hash.length = 64)
    (hMessages : ∀ message ∈ tree.root.messages, message ∈ messages) :
    Covered h key messages tree.root where
  hashed := hBuilt.hashed
  sized := by rwa [hBuilt.inOrder]
  internal := hMessages

end

namespace Hashes
variable {tree : MerkleTree}

theorem built_of_ok (hNe : leaves ≠ [])
    (hTree : h.buildTreeFromNodes key leaves = .ok tree) : Built h key leaves tree := by
  obtain ⟨built, hEq, hBuilt⟩ := h.buildTreeFromNodes_built hNe
  obtain rfl : built = tree := Except.ok.inj (hEq.symm.trans hTree)
  exact hBuilt

theorem buildTree_built (hNe : leafData ≠ []) (hTree : h.buildTree key leafData = .ok tree) :
    Built h key (leafData.mapIdx fun i data => ⟨h.digestText key (leafMessage data), i, []⟩)
      tree := by
  rw [buildTree, if_neg (by simpa using hNe)] at hTree
  exact built_of_ok (by simpa using hNe) hTree

theorem buildTreeFromHashes_built {leafHashes : List Bytes} (hNe : leafHashes ≠ [])
    (hTree : h.buildTreeFromHashes key leafHashes = .ok tree) :
    Built h key (leafHashes.mapIdx fun i hash => ⟨hash, i, hash⟩) tree := by
  rw [buildTreeFromHashes, if_neg (by simpa using hNe)] at hTree
  exact built_of_ok (by simpa using hNe) hTree

def dataMessages (leafData : List Bytes) (tree : MerkleTree) : List Bytes :=
  leafData.map leafMessage ++ tree.root.messages

theorem mem_dataMessages (h : data ∈ leafData) : leafMessage data ∈ dataMessages leafData tree :=
  mem_append_left _ (mem_map_of_mem h)

section
variable {leafData : List Bytes} (hBuilt : Built h key
  (leafData.mapIdx fun i data => ⟨h.digestText key (leafMessage data), i, []⟩) tree)
  (hMessages : ∀ message ∈ dataMessages leafData tree, message ∈ messages)

include hBuilt hMessages

theorem covered_of_data : Covered h key messages tree.root := by
  refine hBuilt.covered ?_ fun message hMem => hMessages message (mem_append_right _ hMem)
  intro entry hEntry
  obtain ⟨i, hi, rfl⟩ := mem_mapIdx.mp hEntry
  exact length_digestText _

theorem ofData : OfData h key messages tree.root := by
  intro entry hEntry
  rw [hBuilt.inOrder] at hEntry
  obtain ⟨i, hi, rfl⟩ := mem_mapIdx.mp hEntry
  exact ⟨leafData[i], rfl, hMessages _ (mem_dataMessages (getElem_mem hi))⟩

omit hMessages in
theorem leafHashes_of_data : tree.root.leafNodes.map (·.hash) =
    leafData.map fun data => h.digestText key (leafMessage data) := by
  rw [hBuilt.inOrder]
  exact map_hash_mapIdx _ _ leafData

end

/-- Where the hash has no collisions, the root of a tree over data determines
the data. -/
theorem buildTree_binds (h : Hashes) (key : Bytes) {first second : List Bytes}
    (hFirst : first ≠ []) (hSecond : second ≠ []) {tree tree' : MerkleTree}
    (hTree : h.buildTree key first = .ok tree) (hTree' : h.buildTree key second = .ok tree')
    (hInj : Set.InjOn (h.keyed key)
      {message | message ∈ dataMessages first tree ++ dataMessages second tree'})
    (hRoot : tree.rootHash = tree'.rootHash) : first = second := by
  have hBuilt := buildTree_built hFirst hTree
  have hBuilt' := buildTree_built hSecond hTree'
  have hMem : ∀ message ∈ dataMessages first tree,
      message ∈ dataMessages first tree ++ dataMessages second tree' :=
    fun _ h => mem_append_left _ h
  have hMem' : ∀ message ∈ dataMessages second tree',
      message ∈ dataMessages first tree ++ dataMessages second tree' :=
    fun _ h => mem_append_right _ h
  have hCovered := covered_of_data hBuilt hMem
  have hCovered' := covered_of_data hBuilt' hMem'
  have hHash : tree.root.hash = tree'.root.hash := by
    rw [← hBuilt.rootHash_eq, hRoot, hBuilt'.rootHash_eq]
  have hShape := sameShape_of_data hInj hCovered hCovered' (ofData hBuilt hMem) (ofData hBuilt' hMem') hHash
  have hLeaves := leaves_of_shape hInj hCovered hCovered' hShape hHash
  rw [leafHashes_of_data hBuilt, leafHashes_of_data hBuilt'] at hLeaves
  refine ext_getElem (by simpa using congrArg List.length hLeaves) ?_
  intro i hi hi'
  have hAt : h.digestText key (leafMessage first[i]) = h.digestText key (leafMessage second[i]) := by
    simpa [hi, hi'] using congrArg (·[i]?) hLeaves
  have hMessage := digestText_inj hInj (hMem _ (mem_dataMessages (getElem_mem hi)))
    (hMem' _ (mem_dataMessages (getElem_mem hi'))) hAt
  exact (List.cons.inj hMessage).2

def IsChunkText (id : Bytes) : Prop :=
  id.length = 64 ∧ ∀ digit ∈ id, (48 ≤ digit ∧ digit ≤ 57) ∨ (97 ≤ digit ∧ digit ≤ 102)

instance (id : Bytes) : Decidable (IsChunkText id) := inferInstanceAs (Decidable (_ ∧ _))

theorem covered_of_ids {ids : List Bytes}
    (hBuilt : Built h key (ids.mapIdx fun i hash => ⟨hash, i, hash⟩) tree) (hIDs : ∀ id ∈ ids, IsChunkText id)
    (hMessages : ∀ message ∈ tree.root.messages, message ∈ messages) : Covered h key messages tree.root := by
  refine hBuilt.covered ?_ hMessages
  intro entry hEntry
  obtain ⟨i, hi, rfl⟩ := mem_mapIdx.mp hEntry
  exact (hIDs _ (getElem_mem hi)).1

/-- Two lists of identifiers with one root are the same exactly if they are
equally long: an internal node's hash has the form of an identifier. -/
theorem sameRoot_same_iff_length (h : Hashes) (key : Bytes) {first second : List Bytes}
    (hFirst : first ≠ []) (hSecond : second ≠ []) (hIDs : ∀ id ∈ first ++ second, IsChunkText id)
    {tree tree' : MerkleTree} (hTree : h.buildTreeFromHashes key first = .ok tree)
    (hTree' : h.buildTreeFromHashes key second = .ok tree')
    (hInj : Set.InjOn (h.keyed key) {message | message ∈ tree.root.messages ++ tree'.root.messages})
    (hRoot : tree.rootHash = tree'.rootHash) : first = second ↔ first.length = second.length := by
  refine ⟨congrArg List.length, ?_⟩
  intro hLength
  have hBuilt := buildTreeFromHashes_built hFirst hTree
  have hBuilt' := buildTreeFromHashes_built hSecond hTree'
  have hCovered : Covered h key {message | message ∈ tree.root.messages ++ tree'.root.messages} tree.root :=
    covered_of_ids hBuilt (fun id hID => hIDs id (mem_append_left _ hID)) fun _ hMem => mem_append_left _ hMem
  have hCovered' : Covered h key {message | message ∈ tree.root.messages ++ tree'.root.messages} tree'.root :=
    covered_of_ids hBuilt' (fun id hID => hIDs id (mem_append_right _ hID))
      fun _ hMem => mem_append_right _ hMem
  have hHash : tree.root.hash = tree'.root.hash := by
    rw [← hBuilt.rootHash_eq, hRoot, hBuilt'.rootHash_eq]
  have hLeaves := leaves_of_shape hInj hCovered hCovered'
    (hBuilt.sameShape hBuilt' (by simpa using hLength)) hHash
  have hTexts : ∀ ids : List Bytes, (ids.mapIdx fun i hash => (⟨hash, i, hash⟩ : Leaf)).map (·.hash) = ids :=
    fun ids => (map_hash_mapIdx id id ids).trans (map_id ids)
  rwa [hBuilt.inOrder, hBuilt'.inOrder, hTexts, hTexts] at hLeaves

end Hashes

inductive Side where
  | left
  | right

def MerkleNode.descend : MerkleNode → List Side → Option MerkleNode
  | node, [] => some node
  | .leaf _, _ :: _ => none
  | .node _ left _, .left :: route => left.descend route
  | .node _ _ right, .right :: route => right.descend route

def MerkleProofStep.side (step : MerkleProofStep) : Side :=
  if step.position = proofPositionLeft then .right else .left

def route (path : List MerkleProofStep) : List Side := path.reverse.map (·.side)

def Hashes.walkMessages (h : Hashes) (key : Bytes) : Bytes → List MerkleProofStep → List Bytes
  | _, [] => []
  | current, step :: rest => stepMessage current step :: h.walkMessages key (h.stepUp key current step) rest

theorem route_snoc (path : List MerkleProofStep) (step : MerkleProofStep) :
    route (path ++ [step]) = step.side :: route path := by
  simp [route]

theorem Hashes.walkMessages_snoc (current : Bytes) (path : List MerkleProofStep) (step : MerkleProofStep) :
    h.walkMessages key current (path ++ [step]) =
      h.walkMessages key current path ++ [stepMessage (h.walk key current path) step] := by
  induction path generalizing current with
  | nil => rfl
  | cons first rest ih => simp [walkMessages, walk, ih]

theorem Hashes.length_walk (hCurrent : current.length = 64)
    (path : List MerkleProofStep) : (h.walk key current path).length = 64 := by
  induction path using List.reverseRecOn with
  | nil => exact hCurrent
  | append_singleton path step ih =>
    rw [walk_snoc]
    exact length_digestText _

theorem stepMessage_form (current : Bytes) (step : MerkleProofStep) :
    ∃ a b, stepMessage current step = nodeMessage a b := by
  unfold stepMessage
  split <;> exact ⟨_, _, rfl⟩

theorem Covered.step_from_child (hInj : Set.InjOn (h.keyed key) messages)
    (hNode : Covered h key messages (.node hash left right)) (hCurrent : current.length = 64)
    (hMessage : stepMessage current step ∈ messages) (hUp : h.stepUp key current step = hash) :
    (step.side = .left ∧ current = left.hash) ∨ (step.side = .right ∧ current = right.hash) := by
  have hEq := hNode.message_eq hInj hMessage hUp
  unfold stepMessage at hEq
  unfold MerkleProofStep.side
  split at hEq
  · rename_i hLeft
    rw [if_pos hLeft]
    refine .inr ⟨rfl, (nodeMessage_inj_right ?_ hEq).2⟩
    rw [hCurrent, hNode.right_child.length_hash]
  · rename_i hRight
    rw [if_neg hRight]
    refine .inl ⟨rfl, (nodeMessage_inj ?_ hEq).1⟩
    rw [hCurrent, hNode.left_child.length_hash]

theorem walk_from_descent (hInj : Set.InjOn (h.keyed key) messages) (hNode : Covered h key messages node)
    (hData : OfData h key messages node) (hCurrent : current.length = 64) (path : List MerkleProofStep)
    (hMessages : ∀ message ∈ h.walkMessages key current path, message ∈ messages)
    (hWalk : h.walk key current path = node.hash) :
    ∃ start, node.descend (route path) = some start ∧ start.hash = current := by
  induction path using List.reverseRecOn generalizing node with
  | nil => exact ⟨node, by cases node <;> rfl, hWalk.symm⟩
  | append_singleton path step ih =>
    rw [Hashes.walk_snoc] at hWalk
    rw [Hashes.walkMessages_snoc] at hMessages
    have hStep := hMessages _ (mem_append_right _ (mem_singleton_self _))
    have hEarlier := fun message hMem => hMessages message (mem_append_left _ hMem)
    have hLength : (h.walk key current path).length = 64 := Hashes.length_walk hCurrent path
    cases node with
    | leaf entry =>
      obtain ⟨a, b, hForm⟩ := stepMessage_form (h.walk key current path) step
      exact absurd hWalk (leaf_ne_node hInj hData hStep hForm)
    | node hash left right =>
      rcases hNode.step_from_child hInj hLength hStep hWalk with ⟨hSide, hChild⟩ | ⟨hSide, hChild⟩
      · rw [route_snoc, hSide]
        exact ih hNode.left_child hData.left_child hEarlier hChild
      · rw [route_snoc, hSide]
        exact ih hNode.right_child hData.right_child hEarlier hChild

theorem Covered.descend (hNode : Covered h key messages node) (route : List Side)
    {start : MerkleNode} (hStart : node.descend route = some start) :
    Covered h key messages start ∧ ∀ entry ∈ start.leafNodes, entry ∈ node.leafNodes := by
  induction route generalizing node with
  | nil =>
    obtain rfl : node = start := by cases node <;> exact Option.some.inj hStart
    exact ⟨hNode, fun _ hEntry => hEntry⟩
  | cons side route ih =>
    cases node with
    | leaf entry => simp [descend] at hStart
    | node hash left right =>
      cases side with
      | left =>
        obtain ⟨hCovered, hLeaves⟩ := ih hNode.left_child hStart
        exact ⟨hCovered, fun entry h => mem_append_left _ (hLeaves entry h)⟩
      | right =>
        obtain ⟨hCovered, hLeaves⟩ := ih hNode.right_child hStart
        exact ⟨hCovered, fun entry h => mem_append_right _ (hLeaves entry h)⟩

/-- A proof that verifies against the root of a tree over data is about the leaf
it names exactly if its leaf hash has the length of a hash and its path leads
down to a leaf with the same data as the one it names. -/
theorem Hashes.verified_leaf_iff (h : Hashes) (key : Bytes) {leafData : List Bytes}
    (hNe : leafData ≠ []) {tree : MerkleTree} (hTree : h.buildTree key leafData = .ok tree)
    (p : MerkleProof)
    (hInj : Set.InjOn (h.keyed key) {message | message ∈ dataMessages leafData tree ++
      h.walkMessages key p.leafHash p.path})
    (hVerified : h.verify key p tree.rootHash = true) :
    (∃ (i : Nat) (data : Bytes), p.leafIndex = i ∧ leafData[i]? = some data ∧
      p.leafHash = h.digestText key (leafMessage data)) ↔
    p.leafHash.length = 64 ∧ ∃ (i : Nat) (data : Bytes) (entry : Leaf), p.leafIndex = i ∧
      leafData[i]? = some data ∧ tree.root.descend (route p.path) = some (.leaf entry) ∧
        leafData[entry.leafIndex]? = some data := by
  have hBuilt := buildTree_built hNe hTree
  have hMem : ∀ message ∈ dataMessages leafData tree, message ∈
      {message | message ∈ dataMessages leafData tree ++ h.walkMessages key p.leafHash p.path} :=
    fun _ hMem => mem_append_left _ hMem
  have hCovered := covered_of_data hBuilt hMem
  have hRoot : tree.rootHash ≠ [] := by
    rw [hBuilt.rootHash_eq]
    exact ne_nil_of_length_eq_add_one hCovered.length_hash
  have hWalk : h.walk key p.leafHash p.path = tree.root.hash :=
    (walk_of_verify hRoot hVerified).trans hBuilt.rootHash_eq
  have hStart : p.leafHash.length = 64 → ∃ start, tree.root.descend (route p.path) = some start ∧
      start.hash = p.leafHash := fun hLength =>
    walk_from_descent hInj hCovered (ofData hBuilt hMem) hLength p.path
      (fun _ hMem => mem_append_right _ hMem) hWalk
  -- a leaf of the tree carries the hash of the data at its index
  have hLeaf : ∀ entry, tree.root.descend (route p.path) = some (.leaf entry) →
      ∃ data, leafData[entry.leafIndex]? = some data ∧ entry.hash = h.digestText key (leafMessage data) := by
    intro entry hEntry
    have hLeaves := (hCovered.descend _ hEntry).2 entry (by simp [leafNodes])
    rw [hBuilt.inOrder] at hLeaves
    obtain ⟨i, hi, rfl⟩ := mem_mapIdx.mp hLeaves
    exact ⟨leafData[i], by simp [hi], rfl⟩
  constructor
  · rintro ⟨i, data, hIndex, hData, hHash⟩
    have hLength : p.leafHash.length = 64 := hHash ▸ length_digestText _
    obtain ⟨start, hDescent, hStartHash⟩ := hStart hLength
    refine ⟨hLength, ?_⟩
    have hDataMem := hMem _ (mem_dataMessages (mem_of_getElem? hData))
    cases start with
    | leaf entry =>
      obtain ⟨data', hData', hHash'⟩ := hLeaf entry hDescent
      have hDataMem' := hMem _ (mem_dataMessages (mem_of_getElem? hData'))
      have hSame := digestText_inj hInj hDataMem' hDataMem (hHash'.symm.trans (hStartHash.trans hHash))
      obtain rfl : data' = data := (List.cons.inj hSame).2
      exact ⟨i, data', entry, hIndex, hData, hDescent, hData'⟩
    | node hash left right =>
      have hNode := (hCovered.descend _ hDescent).1
      have hSame := hNode.message_eq hInj hDataMem (hHash.symm.trans hStartHash.symm)
      exact absurd hSame (leafMessage_ne_nodeMessage _ _ _)
  · rintro ⟨hLength, i, data, entry, hIndex, hData, hDescent, hSame⟩
    obtain ⟨start, hDescent', hStartHash⟩ := hStart hLength
    obtain rfl : MerkleNode.leaf entry = start := Option.some.inj (hDescent.symm.trans hDescent')
    obtain ⟨data', hData', hHash'⟩ := hLeaf entry hDescent
    obtain rfl : data = data' := Option.some.inj (hSame.symm.trans hData')
    exact ⟨i, data, hIndex, hData, hStartHash.symm.trans hHash'⟩

namespace Merkle.Sample

theorem injOn_list {f : Bytes → String} {list : List Bytes}
    (h : ∀ a ∈ list, ∀ b ∈ list, f a = f b → a = b) : Set.InjOn f {m | m ∈ list} :=
  fun a ha b hb => h a ha b hb

def built (result : Result MerkleTree) : MerkleTree :=
  match result with
  | .ok tree => tree
  | .error _ => hashes.emptyTree [] 0

def pair : MerkleTree := built (hashes.buildTree [] [[1], [2]])

def leafText (data : Bytes) : Bytes := hashes.digestText [] (leafMessage data)

def ids : List Bytes := [leafText [1], leafText [2]]

def idTree : MerkleTree := built (hashes.buildTreeFromHashes [] ids)

def rootTree : MerkleTree := built (hashes.buildTreeFromHashes [] [idTree.rootHash])

theorem pair_built : hashes.buildTree [] [[1], [2]] = .ok pair := rfl

theorem idTree_built : hashes.buildTreeFromHashes [] ids = .ok idTree := rfl

theorem rootTree_built : hashes.buildTreeFromHashes [] [idTree.rootHash] = .ok rootTree := rfl

theorem ids_text : ∀ id ∈ ids ++ [idTree.rootHash], IsChunkText id := by decide +kernel

theorem ids_injOn : Set.InjOn (hashes.keyed []) {m | m ∈ idTree.root.messages ++ rootTree.root.messages} :=
  injOn_list (by decide +kernel)

theorem same_root : idTree.rootHash = rootTree.rootHash := by decide +kernel

def honest : MerkleProof := ⟨1, leafText [2], [⟨leafText [1], proofPositionLeft⟩], []⟩

def forged : MerkleProof := ⟨7, pair.rootHash, [], []⟩

end Merkle.Sample

open Merkle.Sample

theorem buildTree_binds_sample :
    hashes.buildTree [] [[1], [2]] = .ok pair ∧ [[1], [2]] = [[1], [(2 : UInt8)]] :=
  ⟨rfl, Hashes.buildTree_binds hashes [] (by decide) (by decide) pair_built pair_built
    (injOn_list (by decide +kernel)) rfl⟩

theorem sameRoot_same_iff_length_sample :
    idTree.rootHash = rootTree.rootHash ∧ (ids = [idTree.rootHash] ↔ ids.length = [idTree.rootHash].length) :=
  ⟨same_root, Hashes.sameRoot_same_iff_length hashes [] (by decide) (by decide) ids_text
    idTree_built rootTree_built ids_injOn same_root⟩

/-- Two identifiers and the one that is the hash of both have the same root. -/
theorem root_as_identifier :
    (∀ id ∈ ids ++ [idTree.rootHash], IsChunkText id) ∧
      hashes.buildTreeFromHashes [] ids = .ok idTree ∧
      hashes.buildTreeFromHashes [] [idTree.rootHash] = .ok rootTree ∧
      Set.InjOn (hashes.keyed []) {m | m ∈ idTree.root.messages ++ rootTree.root.messages} ∧
      idTree.rootHash = rootTree.rootHash ∧ ids ≠ [idTree.rootHash] :=
  ⟨ids_text, idTree_built, rootTree_built, ids_injOn, same_root, by simp [ids]⟩

theorem verified_leaf_iff_sample :
    hashes.verify [] honest pair.rootHash = true ∧
      ((∃ (i : Nat) (data : Bytes), honest.leafIndex = i ∧ [[1], [2]][i]? = some data ∧
          honest.leafHash = leafText data) ↔
        honest.leafHash.length = 64 ∧ ∃ (i : Nat) (data : Bytes) (entry : Leaf),
          honest.leafIndex = i ∧ [[1], [2]][i]? = some data ∧
            pair.root.descend (route honest.path) = some (.leaf entry) ∧
              [[1], [2]][entry.leafIndex]? = some data) :=
  ⟨by decide +kernel, Hashes.verified_leaf_iff hashes [] (by decide) pair_built honest
    (injOn_list (by decide +kernel)) (by decide +kernel)⟩

/-- A proof for a leaf that does not exist, with the root as its hash. -/
theorem forged_verifies :
    hashes.buildTree [] [[1], [2]] = .ok pair ∧
      Set.InjOn (hashes.keyed []) {m | m ∈ dataMessages [[1], [2]] pair ++
        hashes.walkMessages [] forged.leafHash forged.path} ∧
      hashes.verify [] forged pair.rootHash = true ∧ ¬ forged.leafIndex < 2 ∧
      ∀ data ∈ [[1], [(2 : UInt8)]], forged.leafHash ≠ leafText data :=
  ⟨rfl, injOn_list (by decide +kernel), by decide +kernel, by decide, by decide +kernel⟩

end DBVault
