import TokamakTitan.Library.Bisection
import TokamakTitan.Rollup.Bookkeeping
import TokamakTitan.Rollup.LibMerkleTree

/-! The cross-chain messenger of the SDK looks up the state batch of a transaction among the events,
and proves a state root to the contract. -/
namespace Sdk
open Checked Rollup Transactions
open Rollup.LibMerkleTree (keccak256 hashPair)
open Rollup.StateCommitmentChain (ChainInclusionProof)

/-- An event, with the state roots that the client decodes from the data of its transaction. -/
structure StateBatchAppended where
  header : ChainBatchHeader
  stateRoots : List Bytes32
  deriving DecidableEq

inductive Error where
  | moreThanOneEvent
  | nullEvent
  | unsafeNumber
  | noStateRoot
  | undefinedStateRoot
  deriving DecidableEq

def toNumber (x : Uint256) : Except Error ℕ := safeNumber .unsafeNumber x.toNat

section Search

variable (events : List StateBatchAppended)

def queryFilter (batchIndex : ℕ) : List StateBatchAppended :=
  events.filter (·.header.batchIndex.toNat = batchIndex)

def getStateBatchAppendedEventByBatchIndex (batchIndex : ℕ) :
    Except Error (Option StateBatchAppended) :=
  match queryFilter events batchIndex with
  | [] => .ok none
  | [event] => .ok (some event)
  | _ => .error .moreThanOneEvent

def isEventHi (event : StateBatchAppended) (index : ℕ) : Except Error Bool := do
  let prevTotalElements ← toNumber event.header.prevTotalElements
  return decide (index < prevTotalElements)

def isEventLo (event : StateBatchAppended) (index : ℕ) : Except Error Bool := do
  let prevTotalElements ← toNumber event.header.prevTotalElements
  let batchSize ← toNumber event.header.batchSize
  return decide (index ≥ prevTotalElements + batchSize)

/-- The body of the binary search: the event in the middle, and on which side it lies. -/
def probe (transactionIndex middleOfBounds : ℕ) :
    Except Error (Bisection.Side × StateBatchAppended) := do
  match ← getStateBatchAppendedEventByBatchIndex events middleOfBounds with
  | none => .error .nullEvent
  | some event =>
    if ← isEventHi event transactionIndex then return (.high, event)
    else if ← isEventLo event transactionIndex then return (.low, event)
    else return (.here, event)

/-- The search for the batch of a transaction, with at most `fuel` rounds. -/
def getStateBatchAppendedEventByTransactionIndex (totalBatches : Uint256) (fuel : ℕ)
    (transactionIndex : ℕ) : Option (Except Error (Option StateBatchAppended)) :=
  if totalBatches = 0 then some (.ok none)
  else match toNumber totalBatches with
  | .error e => some (.error e)
  | .ok total =>
    match getStateBatchAppendedEventByBatchIndex events (total - 1) with
    | .error e => some (.error e)
    | .ok none => some (.ok none)
    | .ok (some batchEvent) =>
      match isEventLo batchEvent transactionIndex with
      | .error e => some (.error e)
      | .ok true => some (.ok none)
      | .ok false =>
        match isEventHi batchEvent transactionIndex with
        | .error e => some (.error e)
        | .ok false => some (.ok (some batchEvent))
        | .ok true =>
          (Bisection.search (probe events transactionIndex) fuel 0 (total - 1) batchEvent).map
            fun result => result.map some

end Search

structure StateRoot where
  stateRoot : Bytes32
  stateRootIndexInBatch : ℕ
  batch : StateBatchAppended
  deriving DecidableEq

def extractStateRoot (transactionIndex : ℕ) (batch : StateBatchAppended) :
    Except Error StateRoot := do
  let prevTotalElements ← toNumber batch.header.prevTotalElements
  let indexInBatch : ℤ := transactionIndex - prevTotalElements
  if batch.stateRoots.length ≤ indexInBatch then .error .noStateRoot
  else if indexInBatch < 0 then .error .undefinedStateRoot
  else match batch.stateRoots[indexInBatch.toNat]? with
    | none => .error .undefinedStateRoot
    | some stateRoot => .ok ⟨stateRoot, indexInBatch.toNat, batch⟩

def getMessageStateRoot (events : List StateBatchAppended) (totalBatches : Uint256) (fuel : ℕ)
    (messageTxIndex : ℕ) : Option (Except Error (Option StateRoot)) :=
  (getStateBatchAppendedEventByTransactionIndex events totalBatches fuel messageTxIndex).map
    fun result => do
      match ← result with
      | none => return none
      | some batch => return some (← extractStateRoot messageTxIndex batch)

def parsedLeaves (leaves : List Bytes32) : List Bytes32 :=
  let correctedTreeSize := 2 ^ Nat.clog 2 leaves.length
  (List.range correctedTreeSize).map fun i =>
    if h : i < leaves.length then leaves[i] else keccak256 (List.replicate 32 0)

/-- `merkletreejs`: the hashes of the proof that the tree of the leaves gives for one of them. -/
structure MerkleTreeJs where
  getProof : List Bytes32 → ℕ → List Bytes32

/-- Of a perfect tree, the siblings on the way up from the leaf. -/
def MerkleTreeJs.Lawful (js : MerkleTreeJs) : Prop :=
  ∀ height leaves index, leaves.length = 2 ^ height → index < 2 ^ height →
    js.getProof leaves index = MerkleTree.path hashPair (fun p => leaves.getD p 0) height 0 index

variable (js : MerkleTreeJs)

def makeMerkleTreeProof (leaves : List Bytes32) (index : ℕ) : List Bytes32 :=
  js.getProof (parsedLeaves leaves) index

def StateRoot.proof (root : StateRoot) : ChainInclusionProof where
  index := BitVec.ofNat 256 root.stateRootIndexInBatch
  siblings := makeMerkleTreeProof js root.batch.stateRoots root.stateRootIndexInBatch

variable {js}

theorem makeMerkleTreeProof_eq (hjs : js.Lawful) {leaves : List Bytes32} {index : ℕ}
    (h : index < leaves.length) :
    makeMerkleTreeProof js leaves index = LibMerkleTree.treeSiblings leaves index := by
  have hle : leaves.length ≤ 2 ^ LibMerkleTree.treeHeight leaves := Nat.le_pow_clog (by norm_num) _
  rw [makeMerkleTreeProof, hjs _ _ _ (by simp [parsedLeaves]; rfl) (h.trans_le hle),
    LibMerkleTree.treeSiblings]
  apply MerkleTree.path_congr (h.trans_le hle)
  intro q hq
  rw [Nat.zero_add, LibMerkleTree.treeHeight] at hq
  have hget : (parsedLeaves leaves)[q]? = some (LibMerkleTree.leafAt leaves q) := by
    rw [parsedLeaves, List.getElem?_map, List.getElem?_range hq, Option.map_some]
    by_cases hlt : q < leaves.length
    · rw [dif_pos hlt, LibMerkleTree.leafAt_of_lt hlt]
    · rw [dif_neg hlt, LibMerkleTree.leafAt_of_le (Nat.le_of_not_lt hlt)]
  rw [List.getD_eq_getElem?_getD, hget, Option.getD_some]

end Sdk
