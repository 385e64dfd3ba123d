import TokamakTitan.Library.Transactions
import TokamakTitan.Rollup.Base
import TokamakTitan.Rollup.Container

/-! `CanonicalTransactionChain`: the L1 to L2 queue and the batches that the sequencer appends.
Hashes are kept abstract: `keccak` maps byte strings into an arbitrary type. -/
namespace Rollup
open Checked BitField Abi List BitVec

namespace CanonicalTransactionChain

structure QueueElement (H : Type) where
  transactionHash : H
  timestamp : Uint40
  blockNumber : Uint40

structure BatchExtraData where
  totalElements : Uint40
  nextQueueIndex : Uint40
  lastTimestamp : Uint40
  lastBlockNumber : Uint40
  deriving DecidableEq

structure State (H : Type) where
  batches : ChainStorageContainer H
  nextQueueIndex : Uint40
  queueElements : List (QueueElement H)
  maxTransactionGasLimit : Uint256
  l2GasDiscountDivisor : Uint256
  enqueueGasCost : Uint256
  enqueueL2GasPrepaid : Uint256

inductive Event where
  | l2GasParamsUpdated (l2GasDiscountDivisor enqueueGasCost enqueueL2GasPrepaid : Uint256)
  | transactionEnqueued (l1TxOrigin target : Address) (gasLimit : Uint256) (data : Bytes)
      (queueIndex : ℕ) (timestamp : Uint256)
  | transactionBatchAppended (header : ChainBatchHeader)
  | sequencerBatchAppended (startingQueueIndex numQueueElements totalElements : Uint256)
  deriving DecidableEq

structure BatchContext where
  numSequencedTransactions : Uint256
  numSubsequentQueueTransactions : Uint256
  timestamp : Uint256
  blockNumber : Uint256
  deriving DecidableEq

def MAX_ROLLUP_TX_SIZE : ℕ := 50000

def MIN_ROLLUP_TX_GAS : ℕ := 100000

def BATCH_CONTEXT_SIZE : ℕ := 16

def BATCH_CONTEXT_START_POS : ℕ := 15

def getBatchExtraData (extraData : Bytes27) : BatchExtraData :=
  let extraData := extraData.word >>> 40
  { totalElements := (extraData &&&
      0x000000000000000000000000000000000000000000000000000000FFFFFFFFFF#256).setWidth 40
    nextQueueIndex := ((extraData &&&
      0x00000000000000000000000000000000000000000000FFFFFFFFFF0000000000#256) >>> 40).setWidth 40
    lastTimestamp := ((extraData &&&
      0x0000000000000000000000000000000000FFFFFFFFFF00000000000000000000#256) >>> 80).setWidth 40
    lastBlockNumber := ((extraData &&&
      0x000000000000000000000000FFFFFFFFFF000000000000000000000000000000#256) >>> 120).setWidth 40 }

variable (d : BatchExtraData)

def packBatchExtraData : BitVec 256 :=
  d.totalElements.setWidth 256 ||| d.nextQueueIndex.setWidth 256 <<< 40 |||
    d.lastTimestamp.setWidth 256 <<< 80 ||| d.lastBlockNumber.setWidth 256 <<< 120

def makeBatchExtraData : Bytes27 :=
  ⟨packBatchExtraData d <<< 40, field_shiftLeft_low _ (by norm_num)⟩

theorem getBatchExtraData_eq (extraData : Bytes27) :
    getBatchExtraData extraData =
      ⟨field extraData.word 40 40, field extraData.word 80 40, field extraData.word 120 40,
        field extraData.word 160 40⟩ := by
  have h₀ : (0x000000000000000000000000000000000000000000000000000000FFFFFFFFFF#256) =
      mask 256 0 40 := by decide
  have h₁ : (0x00000000000000000000000000000000000000000000FFFFFFFFFF0000000000#256) =
      mask 256 40 40 := by decide
  have h₂ : (0x0000000000000000000000000000000000FFFFFFFFFF00000000000000000000#256) =
      mask 256 80 40 := by decide
  have h₃ : (0x000000000000000000000000FFFFFFFFFF000000000000000000000000000000#256) =
      mask 256 120 40 := by decide
  simp only [getBatchExtraData, h₀, h₁, h₂, h₃, mask_low, mask_shiftRight, field_shiftRight]

theorem getBatchExtraData_make : getBatchExtraData (makeBatchExtraData d) = d := by
  have hread : ∀ position, 40 ≤ position → position ≤ 160 →
      field (makeBatchExtraData d).word position 40 =
        field (packBatchExtraData d) (position - 40) 40 :=
    fun position hlow hhigh => field_shiftLeft _ hlow (by omega)
  rw [getBatchExtraData_eq, hread 40 (by norm_num) (by norm_num),
    hread 80 (by norm_num) (by norm_num), hread 120 (by norm_num) (by norm_num),
    hread 160 (by norm_num) (by norm_num), packBatchExtraData, setWidth_eq_place d.totalElements,
    ← place, ← place, ← place]
  simp (disch := norm_num) only [field_or, field_place, field_place_disjoint, or_zero, zero_or]

section Contract

variable {H : Type} (keccak : Bytes → H) (d : Deployment) (s : State H)

def State.extraData : BatchExtraData := getBatchExtraData s.batches.getGlobalMetadata

def State.getTotalElements : Uint256 := s.extraData.totalElements.setWidth 256

def State.getQueueLength : Uint40 := BitVec.ofNat 40 s.queueElements.length

variable (msg : Message)

def setGasParams (l2GasDiscountDivisor enqueueGasCost : Uint256) (s : State H) :
    Result (State H × List Event) := do
  require (msg.sender = d.managerOwner) "Only callable by the Burn Admin."
  let enqueueL2GasPrepaid ← mul l2GasDiscountDivisor enqueueGasCost
  return ({s with
      l2GasDiscountDivisor
      enqueueGasCost
      enqueueL2GasPrepaid := enqueueL2GasPrepaid},
    [.l2GasParamsUpdated l2GasDiscountDivisor enqueueGasCost enqueueL2GasPrepaid])

/-- The check that gas is left for the burn; the burn itself has no other effect. -/
def burnGas (s : State H) (gasLimit : Uint256) : Result Unit := do
  if s.enqueueL2GasPrepaid.toNat < gasLimit.toNat then
    let gasToConsume ← div (gasLimit - s.enqueueL2GasPrepaid) s.l2GasDiscountDivisor
    require (gasToConsume.toNat < msg.gasleft.toNat) "Insufficient gas for L2 rate limiting burn."
  else
    return ()

def l2Sender : Address :=
  if msg.sender = msg.origin then msg.sender else applyL1ToL2Alias msg.sender

def hashEnqueued (sender target : Address) (gasLimit : Uint256) (data : Bytes) : H :=
  keccak (encodeBytes [sender.setWidth 256, target.setWidth 256, gasLimit] data [])

def enqueue (target : Address) (gasLimit : Uint256) (data : Bytes) (s : State H) :
    Result (State H × List Event) := do
  require (data.length ≤ MAX_ROLLUP_TX_SIZE)
    "Transaction data size exceeds maximum for rollup transaction."
  require (gasLimit.toNat ≤ s.maxTransactionGasLimit.toNat)
    "Transaction gas limit exceeds maximum for rollup transaction."
  require (MIN_ROLLUP_TX_GAS ≤ gasLimit.toNat) "Transaction gas limit too low to enqueue."
  burnGas msg s gasLimit
  let sender := l2Sender msg
  let element : QueueElement H :=
    { transactionHash := hashEnqueued keccak sender target gasLimit data
      timestamp := msg.timestamp.setWidth 40
      blockNumber := msg.number.setWidth 40 }
  return ({s with queueElements := s.queueElements ++ [element]},
    [.transactionEnqueued sender target gasLimit data s.queueElements.length msg.timestamp])

def getBatchContext (data : Bytes) (index : ℕ) : BatchContext :=
  let contextPtr := 15 + index * BATCH_CONTEXT_SIZE
  { numSequencedTransactions := calldataload data contextPtr >>> 232
    numSubsequentQueueTransactions := calldataload data (contextPtr + 3) >>> 232
    timestamp := calldataload data (contextPtr + 6) >>> 216
    blockNumber := calldataload data (contextPtr + 11) >>> 216 }

def shouldStartAtElement (data : Bytes) : Uint40 := (calldataload data 4 >>> 216).setWidth 40

def totalElementsToAppend (data : Bytes) : Uint24 := (calldataload data 9 >>> 232).setWidth 24

def numContexts (data : Bytes) : Uint24 := (calldataload data 12 >>> 232).setWidth 24

structure Progress where
  numSequencerTransactions : Uint32
  nextQueueIndex : Uint40
  curContext : BatchContext

def Progress.step (data : Bytes) (p : Progress) (i : ℕ) : Result Progress := do
  let curContext := getBatchContext data i
  let numSequencerTransactions ←
    add p.numSequencerTransactions (curContext.numSequencedTransactions.setWidth 32)
  let nextQueueIndex ← add p.nextQueueIndex (curContext.numSubsequentQueueTransactions.setWidth 40)
  return ⟨numSequencerTransactions, nextQueueIndex, curContext⟩

def processContexts (data : Bytes) : ℕ → ℕ → Progress → Result Progress
  | 0, _, p => .ok p
  | n + 1, i, p => do
    let p ← p.step data i
    processContexts data n (i + 1) p

def lastElement (p : Progress) : Result (Uint40 × Uint40) := do
  if p.curContext.numSubsequentQueueTransactions = 0 then
    return (p.curContext.timestamp.setWidth 40, p.curContext.blockNumber.setWidth 40)
  else
    let last ← sub p.nextQueueIndex 1#40
    let lastElement ← index s.queueElements last.toNat
    return (lastElement.timestamp, lastElement.blockNumber)

def appendBatch (transactionRoot : Bytes32) (batchSize numQueuedTransactions : Uint256)
    (timestamp blockNumber : Uint40) (s : State H) : Result (State H × Event) := do
  let extraData := s.extraData
  let header : ChainBatchHeader :=
    { batchIndex := s.batches.length
      batchRoot := transactionRoot
      batchSize
      prevTotalElements := extraData.totalElements.setWidth 256
      extraData := [] }
  let totalElements ← add extraData.totalElements (header.batchSize.setWidth 40)
  let nextQueueIndex ← add extraData.nextQueueIndex (numQueuedTransactions.setWidth 40)
  let batches ← s.batches.push d.resolve d.ctc (hashBatchHeader keccak header)
    (makeBatchExtraData ⟨totalElements, nextQueueIndex, timestamp, blockNumber⟩)
  return ({s with batches}, .transactionBatchAppended header)

def appendSequencerBatch (data : Bytes) (s : State H) : Result (State H × List Event) := do
  require ((shouldStartAtElement data).setWidth 256 = s.getTotalElements)
    "Actual batch start index does not match expected start index."
  require (msg.sender = d.resolve "OVM_Sequencer") "Function can only be called by the Sequencer."
  require (BATCH_CONTEXT_START_POS + BATCH_CONTEXT_SIZE * (numContexts data).toNat ≤ data.length)
    "Not enough BatchContexts provided."
  let p ← processContexts data (numContexts data).toNat 0 ⟨0, s.nextQueueIndex, ⟨0, 0, 0, 0⟩⟩
  require (p.nextQueueIndex.toNat ≤ s.queueElements.length)
    "Attempted to append more elements than are available in the queue."
  let numQueued ← sub ((totalElementsToAppend data).setWidth 32) p.numSequencerTransactions
  let numQueuedTransactions : Uint40 := numQueued.setWidth 40
  let (blockTimestamp, blockNumber) ← lastElement s p
  let parent ← sub msg.number 1#256
  let (s', event) ← appendBatch keccak d (msg.blockhash parent)
    ((totalElementsToAppend data).setWidth 256) (numQueuedTransactions.setWidth 256)
    blockTimestamp blockNumber s
  let startingQueueIndex ← sub p.nextQueueIndex numQueuedTransactions
  return ({s' with nextQueueIndex := p.nextQueueIndex},
    [event, .sequencerBatchAppended (startingQueueIndex.setWidth 256)
      (numQueuedTransactions.setWidth 256) s'.getTotalElements])

inductive Call where
  | setGasParams (l2GasDiscountDivisor enqueueGasCost : Uint256)
  | enqueue (target : Address) (gasLimit : Uint256) (data : Bytes)
  | appendSequencerBatch (data : Bytes)

def exec (tx : Message × Call) : Result (State H × List Event) :=
  match tx.2 with
  | .setGasParams l2GasDiscountDivisor enqueueGasCost =>
    setGasParams d tx.1 l2GasDiscountDivisor enqueueGasCost s
  | .enqueue target gasLimit data => enqueue keccak tx.1 target gasLimit data s
  | .appendSequencerBatch data => appendSequencerBatch keccak d tx.1 data s

def State.init (zero : H) (maxTransactionGasLimit l2GasDiscountDivisor enqueueGasCost :
    Uint256) : State H :=
  { batches := ⟨"CanonicalTransactionChain", ⟨0, fun _ => zero⟩⟩
    nextQueueIndex := 0
    queueElements := []
    maxTransactionGasLimit
    l2GasDiscountDivisor
    enqueueGasCost
    enqueueL2GasPrepaid := l2GasDiscountDivisor * enqueueGasCost }

end Contract

def contexts (data : Bytes) : List BatchContext :=
  (List.range (numContexts data).toNat).map (getBatchContext data)

def numSequenced (data : Bytes) : ℕ :=
  ((contexts data).map fun c => c.numSequencedTransactions.toNat).sum

def numSubsequentQueue (data : Bytes) : ℕ :=
  ((contexts data).map fun c => c.numSubsequentQueueTransactions.toNat).sum

variable {H : Type} {keccak : Bytes → H} {d : Deployment}

theorem shiftRight_lt (x : Word) (k : ℕ) (hk : k ≤ 256) : (x >>> k).toNat < 2 ^ (256 - k) := by
  rw [toNat_ushiftRight, Nat.shiftRight_eq_div_pow, Nat.div_lt_iff_lt_mul (by positivity),
    ← pow_add, Nat.sub_add_cancel hk]
  exact x.isLt

theorem setWidth_toNat {w v : ℕ} (x : BitVec w) (h : x.toNat < 2 ^ v) :
    (x.setWidth v).toNat = x.toNat := by
  rw [toNat_setWidth, Nat.mod_eq_of_lt h]

theorem getBatchContext_lt (data : Bytes) (i : ℕ) :
    (getBatchContext data i).numSequencedTransactions.toNat < 2 ^ 24 ∧
      (getBatchContext data i).numSubsequentQueueTransactions.toNat < 2 ^ 24 :=
  ⟨shiftRight_lt _ 232 (by norm_num), shiftRight_lt _ 232 (by norm_num)⟩

theorem State.extraData_init (zero : H) (maxTransactionGasLimit l2GasDiscountDivisor
    enqueueGasCost : Uint256) :
    (State.init zero maxTransactionGasLimit l2GasDiscountDivisor enqueueGasCost).extraData =
      ⟨0, 0, 0, 0⟩ := by
  change getBatchExtraData (BufferContext.unpack 0).extraData = ⟨0, 0, 0, 0⟩
  decide

variable {data : Bytes} {p' p : Progress}

theorem Progress.step_eq_ok {i : ℕ} (h : p.step data i = .ok p') :
    p'.numSequencerTransactions.toNat = p.numSequencerTransactions.toNat +
        (getBatchContext data i).numSequencedTransactions.toNat ∧
      p'.nextQueueIndex.toNat = p.nextQueueIndex.toNat +
        (getBatchContext data i).numSubsequentQueueTransactions.toNat := by
  simp only [Progress.step, bind_eq_ok, pure_eq_ok, add_eq_ok] at h
  obtain ⟨numSequencer, hseq, nextQueue, hqueue, rfl⟩ := h
  have hlt := getBatchContext_lt data i
  rw [setWidth_toNat _ (hlt.1.trans (by norm_num))] at hseq
  rw [setWidth_toNat _ (hlt.2.trans (by norm_num))] at hqueue
  exact ⟨hseq.symm, hqueue.symm⟩

theorem processContexts_eq_ok {n i : ℕ} (h : processContexts data n i p = .ok p') :
    p'.numSequencerTransactions.toNat = p.numSequencerTransactions.toNat +
        ((range' i n).map fun j =>
          (getBatchContext data j).numSequencedTransactions.toNat).sum ∧
      p'.nextQueueIndex.toNat = p.nextQueueIndex.toNat + ((range' i n).map fun j =>
          (getBatchContext data j).numSubsequentQueueTransactions.toNat).sum := by
  induction n generalizing i p with
  | zero =>
    cases h
    simp
  | succ n ih =>
    simp only [processContexts, bind_eq_ok] at h
    obtain ⟨q, hstep, hrest⟩ := h
    obtain ⟨hseq, hqueue⟩ := Progress.step_eq_ok hstep
    obtain ⟨hseq', hqueue'⟩ := ih hrest
    rw [range'_succ, map_cons, map_cons, sum_cons, sum_cons]
    omega

variable {s s' : State H}

theorem appendBatch_eq_ok {root : Bytes32} {batchSize numQueued : Uint256}
    {timestamp blockNumber : Uint40} {event : Event}
    (h : appendBatch keccak d root batchSize numQueued timestamp blockNumber s = .ok (s', event)) :
    s'.extraData.totalElements.toNat =
        s.extraData.totalElements.toNat + batchSize.toNat % 2 ^ 40 ∧
      s'.extraData.nextQueueIndex.toNat =
        s.extraData.nextQueueIndex.toNat + numQueued.toNat % 2 ^ 40 ∧
      s'.queueElements = s.queueElements ∧
      ∃ header, event = .transactionBatchAppended header := by
  simp only [appendBatch, bind_eq_ok, pure_eq_ok, add_eq_ok, Prod.mk.injEq, toNat_setWidth] at h
  obtain ⟨total, htotal, next, hnext, batches, hpush, rfl, hevent⟩ := h
  have hdata : getBatchExtraData batches.getGlobalMetadata =
      ⟨total, next, timestamp, blockNumber⟩ := by
    rw [(ChainStorageContainer.push_eq_ok hpush).2, getBatchExtraData_make]
  refine ⟨?_, ?_, rfl, _, hevent.symm⟩
  · rw [State.extraData, hdata]
    exact htotal.symm
  · rw [State.extraData, hdata]
    exact hnext.symm

structure Appended (s : State H) (data : Bytes) (s' : State H) (startingQueueIndex : Uint256) :
    Prop where
  numSequenced_le : numSequenced data ≤ (totalElementsToAppend data).toNat
  totalElements : s'.extraData.totalElements.toNat =
    s.extraData.totalElements.toNat + (totalElementsToAppend data).toNat
  packedIndex : s'.extraData.nextQueueIndex.toNat + numSequenced data =
    s.extraData.nextQueueIndex.toNat + (totalElementsToAppend data).toNat
  storedIndex : s'.nextQueueIndex.toNat = s.nextQueueIndex.toNat + numSubsequentQueue data
  queued : s'.nextQueueIndex.toNat ≤ s.queueElements.length
  startingQueueIndex : startingQueueIndex.toNat + (totalElementsToAppend data).toNat =
    s'.nextQueueIndex.toNat + numSequenced data
  queueElements : s'.queueElements = s.queueElements

theorem map_contexts (f : BatchContext → ℕ) (data : Bytes) : (contexts data).map f =
    (range' 0 (numContexts data).toNat).map fun j => f (getBatchContext data j) := by
  rw [contexts, map_map, range_eq_range']
  rfl

variable {events : List Event} {msg : Message}

theorem appendSequencerBatch_eq_ok
    (h : appendSequencerBatch keccak d msg data s = .ok (s', events)) :
    ∃ header startingQueueIndex numQueueElements totalElements,
      events = [.transactionBatchAppended header,
        .sequencerBatchAppended startingQueueIndex numQueueElements totalElements] ∧
      Appended s data s' startingQueueIndex := by
  simp only [appendSequencerBatch, bind_eq_ok, require_eq_ok, sub_eq_ok] at h
  obtain ⟨-, -, -, -, -, -, p, hp, -, hqueue, numQueued, hnum, ⟨timestamp, blockNumber⟩, -,
    parent, -, ⟨t, event⟩, happend, start, hstart, hreturn⟩ := h
  simp only [pure_eq_ok, Prod.mk.injEq] at hreturn
  obtain ⟨rfl, rfl⟩ := hreturn
  obtain ⟨hseq, hsub⟩ := processContexts_eq_ok hp
  obtain ⟨htotal, hnext, hsame, header, rfl⟩ := appendBatch_eq_ok happend
  have htotal24 := (totalElementsToAppend data).isLt
  have hnum32 := numQueued.isLt
  have hstart40 := start.isLt
  -- No cast truncates: the total has 24 bits and the number of queued transactions at most 32.
  simp only [toNat_setWidth] at hnum htotal hnext hstart
  have hsize : (totalElementsToAppend data).toNat =
      p.numSequencerTransactions.toNat + numQueued.toNat := by omega
  have hseq' : p.numSequencerTransactions.toNat = numSequenced data := by
    rw [hseq, numSequenced, map_contexts]
    exact Nat.zero_add _
  have hsub' : p.nextQueueIndex.toNat = s.nextQueueIndex.toNat + numSubsequentQueue data := by
    rw [hsub, numSubsequentQueue, map_contexts]
  have hpacked : t.extraData.nextQueueIndex.toNat + numSequenced data =
      s.extraData.nextQueueIndex.toNat + (totalElementsToAppend data).toNat := by
    rw [hnext]
    omega
  have hstarting : (start.setWidth 256).toNat + (totalElementsToAppend data).toNat =
      p.nextQueueIndex.toNat + numSequenced data := by
    rw [toNat_setWidth]
    omega
  exact ⟨header, start.setWidth 256, _, _, rfl, by omega, htotal.trans (by omega), hpacked, hsub',
    hqueue, hstarting, hsame⟩

variable {gasLimit : Uint256}

theorem enqueue_eq_ok {target : Address}
    (h : enqueue keccak msg target gasLimit data s = .ok (s', events)) :
    s' = {s with queueElements := s.queueElements ++
      [⟨hashEnqueued keccak (l2Sender msg) target gasLimit data, msg.timestamp.setWidth 40,
        msg.number.setWidth 40⟩]} ∧
    events = [.transactionEnqueued (l2Sender msg) target gasLimit data s.queueElements.length
      msg.timestamp] := by
  simp only [enqueue, bind_eq_ok, pure_eq_ok, Prod.mk.injEq] at h
  obtain ⟨-, -, -, -, -, -, -, -, hstate, hevents⟩ := h
  exact ⟨hstate.symm, hevents.symm⟩

theorem enqueue_ok (msg : Message) (target : Address) (hsize : data.length ≤ MAX_ROLLUP_TX_SIZE)
    (hmax : gasLimit.toNat ≤ s.maxTransactionGasLimit.toNat)
    (hmin : MIN_ROLLUP_TX_GAS ≤ gasLimit.toNat)
    (hprepaid : gasLimit.toNat ≤ s.enqueueL2GasPrepaid.toNat) :
    ∃ result, enqueue keccak msg target gasLimit data s = .ok result := by
  have hburn : burnGas msg s gasLimit = .ok () := by
    rw [burnGas, if_neg (by omega)]
    rfl
  simp only [enqueue, bind_eq_ok, require_eq_ok]
  exact ⟨_, (), hsize, (), hmax, (), hmin, (), hburn, rfl⟩

theorem exec_eq_ok {tx : Message × Call} (h : exec keccak d s tx = .ok (s', events)) :
    (∃ data header startingQueueIndex numQueueElements totalElements,
      tx.2 = .appendSequencerBatch data ∧
      events = [.transactionBatchAppended header,
        .sequencerBatchAppended startingQueueIndex numQueueElements totalElements] ∧
      Appended s data s' startingQueueIndex) ∨
    ((∀ data, tx.2 ≠ .appendSequencerBatch data) ∧
      (∀ start num total, .sequencerBatchAppended start num total ∉ events) ∧
      s'.batches = s.batches ∧ s'.nextQueueIndex = s.nextQueueIndex ∧
      s.queueElements <+: s'.queueElements) := by
  obtain ⟨msg, call⟩ := tx
  cases call with
  | setGasParams =>
    simp only [exec, setGasParams, bind_eq_ok, pure_eq_ok, Prod.mk.injEq] at h
    obtain ⟨-, -, -, -, rfl, rfl⟩ := h
    exact .inr ⟨by simp, by simp, rfl, rfl, prefix_rfl⟩
  | enqueue =>
    obtain ⟨rfl, rfl⟩ := enqueue_eq_ok h
    exact .inr ⟨by simp, by simp, rfl, rfl, prefix_append _ _⟩
  | appendSequencerBatch data =>
    obtain ⟨header, start, num, total, hevents, happended⟩ := appendSequencerBatch_eq_ok h
    exact .inl ⟨data, header, start, num, total, rfl, hevents, happended⟩

end CanonicalTransactionChain

end Rollup
