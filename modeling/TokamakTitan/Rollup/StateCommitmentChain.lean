import TokamakTitan.Rollup.CanonicalTransactionChain

/-! `StateCommitmentChain`: batches of state roots that the proposer appends and that the fraud
verifier may delete within the fraud proof window. -/
namespace Rollup.StateCommitmentChain
open Checked BitField Abi

structure BatchExtraData where
  totalElements : Uint40
  lastSequencerTimestamp : Uint40
  deriving DecidableEq

structure State (H : Type) where
  batches : ChainStorageContainer H

inductive Event where
  | stateBatchAppended (header : ChainBatchHeader)
  | stateBatchDeleted (batchIndex : Uint256) (batchRoot : Bytes32)
  deriving DecidableEq

structure Parameters where
  FRAUD_PROOF_WINDOW : Uint256
  SEQUENCER_PUBLISH_WINDOW : Uint256
  getMerkleRoot : List Bytes32 → Result Bytes32
  verify : Bytes32 → Bytes32 → Uint256 → List Bytes32 → Uint256 → Result Bool

structure ChainInclusionProof where
  index : Uint256
  siblings : List Bytes32
  deriving DecidableEq

def getBatchExtraData (extraData : Bytes27) : BatchExtraData :=
  let extraData := extraData.word >>> 40
  { totalElements := (extraData &&&
      0x000000000000000000000000000000000000000000000000000000FFFFFFFFFF#256).setWidth 40
    lastSequencerTimestamp := ((extraData &&&
      0xFFFFFFFFFFFFFFFFFFFFFFFFFFFFFFFFFFFFFFFFFFFFFFFFFFFFFF0000000000#256) >>> 40).setWidth 40 }

def makeBatchExtraData (d : BatchExtraData) : Bytes27 :=
  ⟨(d.totalElements.setWidth 256 ||| d.lastSequencerTimestamp.setWidth 256 <<< 40) <<< 40,
    field_shiftLeft_low _ (by norm_num)⟩

theorem totalElements_make (d : BatchExtraData) :
    (getBatchExtraData (makeBatchExtraData d)).totalElements = d.totalElements := by
  have hmask : (0x000000000000000000000000000000000000000000000000000000FFFFFFFFFF#256) =
      mask 256 0 40 := by decide
  simp only [getBatchExtraData, hmask, mask_low, field_shiftRight]
  rw [makeBatchExtraData, field_shiftLeft _ (by norm_num) (by norm_num), field_or,
    setWidth_eq_place d.totalElements, ← place, field_place _ (by norm_num),
    field_place_disjoint _ (by norm_num), BitVec.or_zero]

section Contract

variable {H : Type} [DecidableEq H] (keccak : Bytes → H) (d : Deployment) (params : Parameters)
  (s : State H)

def State.extraData : BatchExtraData := getBatchExtraData s.batches.getGlobalMetadata

def State.getTotalElements : Uint256 := s.extraData.totalElements.setWidth 256

def State.getTotalBatches : Uint256 := s.batches.length

def isCollateralized (who : Address) : Bool := who = d.resolve "OVM_Proposer"

def decodeExtraData (extraData : Bytes) : Result (Uint256 × Address) :=
  let publisher := calldataload extraData 32
  if 64 ≤ extraData.length ∧ publisher.toNat < 2 ^ 160 then
    .ok (calldataload extraData 0, publisher.setWidth 160)
  else .error .bare

def insideFraudProofWindow (now : Uint256) (header : ChainBatchHeader) : Result Bool := do
  let (timestamp, _) ← decodeExtraData header.extraData
  require (timestamp.toNat ≠ 0) "Batch header timestamp cannot be zero"
  let deadline ← add timestamp params.FRAUD_PROOF_WINDOW
  return decide (now.toNat < deadline.toNat)

def isValidBatchHeader (header : ChainBatchHeader) : Result Bool := do
  let stored ← s.batches.get header.batchIndex
  return decide (hashBatchHeader keccak header = stored)

variable (msg : Message)

def nextSequencerTimestamp (last : Uint40) : Result Uint40 := do
  if msg.sender = d.resolve "OVM_Proposer" then
    return msg.timestamp.setWidth 40
  else
    let windowEnd ← add (last.setWidth 256) params.SEQUENCER_PUBLISH_WINDOW
    require (windowEnd.toNat < msg.timestamp.toNat)
      "Cannot publish state roots within the sequencer publication window."
    return last

def appendBatch (batch : List Bytes32) (extraData : Bytes) (s : State H) :
    Result (State H × List Event) := do
  let last ← nextSequencerTimestamp d params msg s.extraData.lastSequencerTimestamp
  let batchRoot ← params.getMerkleRoot batch
  let batchHeader : ChainBatchHeader :=
    { batchIndex := s.getTotalBatches
      batchRoot
      batchSize := BitVec.ofNat 256 batch.length
      prevTotalElements := s.extraData.totalElements.setWidth 256
      extraData }
  let totalElements ← add batchHeader.prevTotalElements batchHeader.batchSize
  let batches ← s.batches.push d.resolve d.scc (hashBatchHeader keccak batchHeader)
    (makeBatchExtraData ⟨totalElements.setWidth 40, last⟩)
  return (⟨batches⟩, [.stateBatchAppended batchHeader])

/-- `ctcTotalElements` is what the canonical transaction chain answers. -/
def appendStateBatch (ctcTotalElements : Uint256) (batch : List Bytes32)
    (shouldStartAtElement : Uint256) (s : State H) : Result (State H × List Event) := do
  let batchLength : Uint256 := BitVec.ofNat 256 batch.length
  require (shouldStartAtElement = s.getTotalElements)
    "Actual batch start index does not match expected start index."
  require (isCollateralized d msg.sender) "Proposer does not have enough collateral posted"
  require (0 < batchLength.toNat) "Cannot submit an empty state batch."
  let total ← add s.getTotalElements batchLength
  require (total.toNat ≤ ctcTotalElements.toNat)
    "Number of state roots cannot exceed the number of canonical transactions."
  appendBatch keccak d params msg batch (words [msg.timestamp, msg.sender.setWidth 256]) s

variable (batchHeader : ChainBatchHeader)

def deleteBatch (s : State H) : Result (State H × List Event) := do
  require (batchHeader.batchIndex.toNat < s.batches.length.toNat) "Invalid batch index."
  let valid ← isValidBatchHeader keccak s batchHeader
  require (valid = true) "Invalid batch header."
  let batches ← s.batches.deleteElementsAfterInclusive d.resolve d.scc batchHeader.batchIndex
    (makeBatchExtraData ⟨batchHeader.prevTotalElements.setWidth 40, 0⟩)
  return (⟨batches⟩, [.stateBatchDeleted batchHeader.batchIndex batchHeader.batchRoot])

def deleteStateBatch (s : State H) : Result (State H × List Event) := do
  require (msg.sender = d.resolve "OVM_FraudVerifier")
    "State batches can only be deleted by the OVM_FraudVerifier."
  let valid ← isValidBatchHeader keccak s batchHeader
  require (valid = true) "Invalid batch header."
  let inside ← insideFraudProofWindow params msg.timestamp batchHeader
  require (inside = true) "State batches can only be deleted within the fraud proof window."
  deleteBatch keccak d batchHeader s

/-- The header check of `verifyStateCommitment`, before the inclusion proof. -/
def verifyHeader : Result Unit := do
  let valid ← isValidBatchHeader keccak s batchHeader
  require (valid = true) "Invalid batch header."

def verifyStateCommitment (element : Bytes32) (batchHeader : ChainBatchHeader)
    (proof : ChainInclusionProof) : Result Bool := do
  verifyHeader keccak s batchHeader
  let included ← params.verify batchHeader.batchRoot element proof.index proof.siblings
    batchHeader.batchSize
  require (included = true) "Invalid inclusion proof."
  return true

inductive Call where
  | appendStateBatch (batch : List Bytes32) (shouldStartAtElement : Uint256)
  | deleteStateBatch (batchHeader : ChainBatchHeader)

structure Tx where
  msg : Message
  ctcTotalElements : Uint256
  call : Call

def exec (tx : Tx) : Result (State H × List Event) :=
  match tx.call with
  | .appendStateBatch batch start =>
    appendStateBatch keccak d params tx.msg tx.ctcTotalElements batch start s
  | .deleteStateBatch header => deleteStateBatch keccak d params tx.msg header s

def State.init (zero : H) : State H := ⟨"StateCommitmentChain", ⟨0, fun _ => zero⟩⟩

end Contract

def SameContents (h h' : ChainBatchHeader) : Prop :=
  h = {h' with batchIndex := h.batchIndex}

def HeaderHashInjective {H : Type} (keccak : Bytes → H) : Prop :=
  ∀ h h', hashBatchHeader keccak h = hashBatchHeader keccak h' → SameContents h h'

theorem headerHashInjective_of_injective {H : Type} {keccak : Bytes → H}
    (h : Function.Injective keccak) : HeaderHashInjective keccak := by
  intro a b hab
  have hencode : encodeBytes [a.batchRoot, a.batchSize, a.prevTotalElements] a.extraData [] =
      encodeBytes [b.batchRoot, b.batchSize, b.prevTotalElements] b.extraData [] := h hab
  obtain ⟨hwords, hbytes, -⟩ := encodeBytes_inj (by simp) (by simp) hencode
  simp only [List.cons.injEq, and_true] at hwords
  obtain ⟨hroot, hsize, hprev⟩ := hwords
  obtain ⟨index, root, size, prev, extra⟩ := a
  subst hroot hsize hprev hbytes
  rfl

variable {H : Type} {keccak : Bytes → H} {d : Deployment} {params : Parameters}

def stamp (header : ChainBatchHeader) : ℕ := (calldataload header.extraData 0).toNat

variable {header : ChainBatchHeader}

theorem insideFraudProofWindow_eq_ok {now : Uint256} {inside : Bool}
    (h : insideFraudProofWindow params now header = .ok inside) :
    inside = decide (now.toNat < stamp header + params.FRAUD_PROOF_WINDOW.toNat) := by
  simp only [insideFraudProofWindow, bind_eq_ok, pure_eq_ok, require_eq_ok, add_eq_ok] at h
  obtain ⟨⟨timestamp, publisher⟩, hdecode, -, -, deadline, hadd, rfl⟩ := h
  simp only [decodeExtraData] at hdecode
  split at hdecode
  · cases hdecode
    rw [← hadd]
    rfl
  · cases hdecode

structure Appended (keccak : Bytes → H) (s : State H) (tx : Tx) (header : ChainBatchHeader)
    (s' : State H) : Prop where
  batches : s'.batches.toList = s.batches.toList ++ [hashBatchHeader keccak header]
  batchIndex : header.batchIndex.toNat = s.batches.toList.length
  batchSize : 0 < header.batchSize.toNat
  prevTotalElements : header.prevTotalElements.toNat = s.extraData.totalElements.toNat
  bounded : header.prevTotalElements.toNat + header.batchSize.toNat ≤ tx.ctcTotalElements.toNat
  totalElements : s'.extraData.totalElements.toNat =
    (header.prevTotalElements.toNat + header.batchSize.toNat) % 2 ^ 40
  extraData : header.extraData = words [tx.msg.timestamp, tx.msg.sender.setWidth 256]

structure Deleted (keccak : Bytes → H) (params : Parameters) (s : State H) (tx : Tx)
    (header : ChainBatchHeader) (s' : State H) : Prop where
  valid : s.batches.toList[header.batchIndex.toNat]? = some (hashBatchHeader keccak header)
  inside : tx.msg.timestamp.toNat < stamp header + params.FRAUD_PROOF_WINDOW.toNat
  batches : s'.batches.toList = s.batches.toList.take header.batchIndex.toNat
  totalElements : s'.extraData.totalElements.toNat = header.prevTotalElements.toNat % 2 ^ 40

variable {events : List Event} {s s' : State H} {batch : List Bytes32}

theorem appendBatch_eq_ok {msg : Message} {extraData : Bytes}
    (h : appendBatch keccak d params msg batch extraData s = .ok (s', events)) :
    ∃ header, events = [.stateBatchAppended header] ∧
      s'.batches.toList = s.batches.toList ++ [hashBatchHeader keccak header] ∧
      header.batchIndex = s.getTotalBatches ∧
      header.batchSize = BitVec.ofNat 256 batch.length ∧
      header.prevTotalElements = s.getTotalElements ∧
      s'.extraData.totalElements.toNat =
        (header.prevTotalElements.toNat + header.batchSize.toNat) % 2 ^ 40 ∧
      header.extraData = extraData := by
  simp only [appendBatch, bind_eq_ok, add_eq_ok, pure_eq_ok, Prod.mk.injEq] at h
  obtain ⟨last, -, root, -, sum, hsum, batches, hpush, rfl, hevents⟩ := h
  obtain ⟨hlist, hmeta⟩ := ChainStorageContainer.push_eq_ok hpush
  refine ⟨_, hevents.symm, hlist, rfl, rfl, rfl, ?_, rfl⟩
  rw [hsum, State.extraData, hmeta, totalElements_make, BitVec.toNat_setWidth]

variable {tx : Tx} {start : Uint256}

theorem appendStateBatch_eq_ok (h : appendStateBatch keccak d params tx.msg tx.ctcTotalElements
      batch start s = .ok (s', events)) :
    ∃ header, events = [.stateBatchAppended header] ∧ Appended keccak s tx header s' := by
  simp only [appendStateBatch, bind_eq_ok, require_eq_ok, add_eq_ok] at h
  obtain ⟨-, -, -, -, -, hpos, total, htotal, -, hbound, happend⟩ := h
  obtain ⟨header, hevents, hlist, hindex, hsize, hprev, hsum, hextra⟩ := appendBatch_eq_ok happend
  have hprev' : header.prevTotalElements.toNat = s.extraData.totalElements.toNat := by
    rw [hprev, State.getTotalElements, BitVec.toNat_setWidth, Nat.mod_eq_of_lt]
    exact s.extraData.totalElements.isLt.trans (by norm_num)
  refine ⟨header, hevents, hlist, ?_, ?_, hprev', ?_, hsum, hextra⟩
  · rw [hindex]
    exact s.batches.length_toNat
  · rw [hsize]
    exact hpos
  · rw [hprev, hsize, htotal]
    exact hbound

theorem appendStateBatch_roots (tx : Tx) (h : appendStateBatch keccak d params tx.msg
      tx.ctcTotalElements batch start s = .ok (s', events)) :
    ∃ header, events = [.stateBatchAppended header] ∧
      params.getMerkleRoot batch = .ok header.batchRoot ∧
      header.batchSize = BitVec.ofNat 256 batch.length ∧ header.prevTotalElements = start := by
  simp only [appendStateBatch, appendBatch, bind_eq_ok, require_eq_ok, pure_eq_ok,
    Prod.mk.injEq] at h
  obtain ⟨-, hstart, -, -, -, -, -, -, -, -, -, -, root, hroot, -, -, -, -, -, hevents⟩ := h
  exact ⟨_, hevents.symm, hroot, rfl, hstart.symm⟩

variable [DecidableEq H]

theorem isValidBatchHeader_eq_true :
    isValidBatchHeader keccak s header = .ok true ↔
      s.batches.toList[header.batchIndex.toNat % 2 ^ 40]? =
        some (hashBatchHeader keccak header) := by
  simp only [isValidBatchHeader, bind_eq_ok, pure_eq_ok, decide_eq_true_eq,
    ChainStorageContainer.get_eq_ok]
  constructor
  · rintro ⟨stored, hget, rfl⟩
    exact hget
  · intro hget
    exact ⟨_, hget, rfl⟩

theorem deleteStateBatch_eq_ok
    (h : deleteStateBatch keccak d params tx.msg header s = .ok (s', events)) :
    events = [.stateBatchDeleted header.batchIndex header.batchRoot] ∧
      Deleted keccak params s tx header s' := by
  simp only [deleteStateBatch, deleteBatch, bind_eq_ok, require_eq_ok, pure_eq_ok,
    Prod.mk.injEq] at h
  obtain ⟨-, -, -, -, -, -, inside, hinside, -, rfl, -, hlt, valid, hvalid, -, rfl, batches,
    hdelete, rfl, rfl⟩ := h
  obtain ⟨hlist, hmeta⟩ := ChainStorageContainer.deleteElementsAfterInclusive_eq_ok hdelete
  have hsmall : header.batchIndex.toNat % 2 ^ 40 = header.batchIndex.toNat := by
    have hlen := s.batches.length_toList_lt
    rw [s.batches.length_toNat] at hlt
    exact Nat.mod_eq_of_lt (hlt.trans hlen)
  rw [hsmall] at hlist
  refine ⟨rfl, ?_, ?_, hlist, ?_⟩
  · rw [← hsmall]
    exact isValidBatchHeader_eq_true.mp hvalid
  · simpa using insideFraudProofWindow_eq_ok hinside
  · rw [State.extraData, hmeta, totalElements_make, BitVec.toNat_setWidth]

theorem exec_eq_ok (h : exec keccak d params s tx = .ok (s', events)) :
    (∃ header, events = [.stateBatchAppended header] ∧ Appended keccak s tx header s') ∨
    ∃ header, events = [.stateBatchDeleted header.batchIndex header.batchRoot] ∧
      Deleted keccak params s tx header s' := by
  unfold exec at h
  cases hcall : tx.call with
  | appendStateBatch =>
    rw [hcall] at h
    exact .inl (appendStateBatch_eq_ok h)
  | deleteStateBatch header =>
    rw [hcall] at h
    exact .inr ⟨header, deleteStateBatch_eq_ok h⟩

end Rollup.StateCommitmentChain
