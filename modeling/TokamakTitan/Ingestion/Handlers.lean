import TokamakTitan.Ingestion.TransportDB

/-! The handlers of the three events (`l1-ingestion/handlers/transaction-enqueued.ts`,
`sequencer-batch-appended.ts` and `state-batch-appended.ts`). A handler fetches what the event
lacks, turns it into entries and stores those. -/
namespace DataTransportLayer
open BatchSubmitter CoreUtils
open Traced (Program get modify fail forEach)

structure Log (Args : Type) where
  blockNumber : ℕ
  transactionHash : Bytes
  logIndex : ℕ
  args : Args
  deriving DecidableEq

structure TransactionEnqueuedArgs where
  l1TxOrigin : Bytes
  target : Bytes
  gasLimit : ℕ
  data : Bytes
  queueIndex : ℕ
  timestamp : ℕ
  deriving DecidableEq

structure SequencerBatchAppendedArgs extends SequencerBatchAppendedEvent where
  numQueueElements : ℕ
  deriving DecidableEq

structure BatchAppendedArgs where
  batchIndex : ℕ
  batchRoot : Bytes
  batchSize : ℕ
  prevTotalElements : ℕ
  extraData : Bytes
  deriving DecidableEq

structure L1Transaction where
  sender : Bytes
  hash : Bytes
  data : Bytes
  deriving DecidableEq

structure L1Block where
  number : ℕ
  timestamp : ℕ
  deriving DecidableEq

structure Provider where
  getTransaction : Bytes → Option L1Transaction
  getBlock : ℕ → Option L1Block
  transactionBatchAppended : ℕ → Option (List (Log BatchAppendedArgs))

structure EventHandlerSet (Args ExtraData Parsed : Type) where
  getExtraData : Log Args → Provider → Option ExtraData
  parseEvent : Log Args → ExtraData → ℕ → Except ParseError Parsed
  storeEvent : Parsed → Ingestion Unit

/-- The defence of every handler against an event that the RPC provider has left out. -/
def requirePrevious (key : Key) (index : ℕ) (name : EventName) : Ingestion Unit := do
  let db ← get
  if 0 < index ∧ (db.store key (index - 1)).isNone then fail (.missingElement name)

namespace TransactionEnqueued

def parseEvent (event : Log TransactionEnqueuedArgs) : Except ParseError EnqueueEntry := do
  let index ← toNumber event.args.queueIndex
  let timestamp ← toNumber event.args.timestamp
  return {
    index
    target := event.args.target
    data := event.args.data
    gasLimit := event.args.gasLimit
    origin := event.args.l1TxOrigin
    blockNumber := event.blockNumber
    timestamp
    ctcIndex := none }

def storeEvent (entry : EnqueueEntry) : Ingestion Unit := do
  requirePrevious .enqueue entry.index .transactionEnqueued
  putEntries .enqueue [entry]

end TransactionEnqueued

def handleEventsTransactionEnqueued :
    EventHandlerSet TransactionEnqueuedArgs Unit EnqueueEntry where
  getExtraData := fun _ _ => some ()
  parseEvent := fun event _ _ => TransactionEnqueued.parseEvent event
  storeEvent := TransactionEnqueued.storeEvent

namespace SequencerBatchAppended

/-- The rest of the data is in the `TransactionBatchAppended` event emitted immediately before. -/
def getExtraData (event : Log SequencerBatchAppendedArgs) (l1RpcProvider : Provider) :
    Option SequencerBatchAppendedExtraData := do
  let l1Transaction ← l1RpcProvider.getTransaction event.transactionHash
  let eventBlock ← l1RpcProvider.getBlock event.blockNumber
  let events ← l1RpcProvider.transactionBatchAppended eventBlock.number
  let batchSubmissionEvent ← events.find? fun foundEvent =>
    foundEvent.transactionHash = event.transactionHash ∧
      foundEvent.logIndex + 1 = event.logIndex
  return {
    timestamp := eventBlock.timestamp
    blockNumber := eventBlock.number
    submitter := l1Transaction.sender
    l1TransactionHash := l1Transaction.hash
    l1TransactionData := l1Transaction.data
    prevTotalElements := batchSubmissionEvent.args.prevTotalElements
    batchIndex := batchSubmissionEvent.args.batchIndex
    batchSize := batchSubmissionEvent.args.batchSize
    batchRoot := batchSubmissionEvent.args.batchRoot
    batchExtraData := batchSubmissionEvent.args.extraData }

def requirePreviousTransaction (entries : List TransactionEntry) : Ingestion Unit :=
  match entries with
  | [] => pure ()
  | first :: _ => requirePrevious .transaction first.index .sequencerBatchAppendedTransaction

def storeQueueIndex (entry : TransactionEntry) : Ingestion Unit :=
  match entry.queueOrigin, entry.queueIndex with
  | .sequencer, _ => pure ()
  | .l1, none => fail .invalidIndex
  | .l1, some queueIndex => putTransactionIndexByQueueIndex queueIndex entry.index

def storeEvent (entry : ParsedEvent) : Ingestion Unit := do
  requirePrevious .transactionBatch entry.transactionBatchEntry.index .sequencerBatchAppended
  requirePreviousTransaction entry.transactionEntries
  putEntries .transaction entry.transactionEntries
  forEach storeQueueIndex entry.transactionEntries
  putEntries .transactionBatch [entry.transactionBatchEntry]

end SequencerBatchAppended

def handleEventsSequencerBatchAppended (zlib : Zlib) (ethers : Ethers) :
    EventHandlerSet SequencerBatchAppendedArgs SequencerBatchAppendedExtraData ParsedEvent where
  getExtraData := SequencerBatchAppended.getExtraData
  parseEvent := fun event => parseEvent zlib ethers event.args.toSequencerBatchAppendedEvent
  storeEvent := SequencerBatchAppended.storeEvent

namespace StateBatchAppended

structure ExtraData where
  timestamp : ℕ
  blockNumber : ℕ
  submitter : Bytes
  l1TransactionHash : Bytes
  l1TransactionData : Bytes
  deriving DecidableEq

structure Parsed where
  stateRootBatchEntry : StateRootBatchEntry
  stateRootEntries : List StateRootEntry
  deriving DecidableEq

def getExtraData (event : Log BatchAppendedArgs) (l1RpcProvider : Provider) : Option ExtraData := do
  let eventBlock ← l1RpcProvider.getBlock event.blockNumber
  let l1Transaction ← l1RpcProvider.getTransaction event.transactionHash
  return {
    timestamp := eventBlock.timestamp
    blockNumber := eventBlock.number
    submitter := l1Transaction.sender
    l1TransactionHash := l1Transaction.hash
    l1TransactionData := l1Transaction.data }

def stateRootEntries (args : BatchAppendedArgs) :
    ℕ → List Bytes → Except ParseError (List StateRootEntry)
  | _, [] => .ok []
  | i, value :: rest => do
    let index ← toNumber (args.prevTotalElements + i)
    let batchIndex ← toNumber args.batchIndex
    let entries ← stateRootEntries args (i + 1) rest
    return ⟨index, batchIndex, value, true⟩ :: entries

/-- The roots are the first argument of the call to `appendStateBatch` in the data of the
transaction. -/
def parseEvent (decodeFunctionData : Bytes → Option (List Bytes))
    (event : Log BatchAppendedArgs) (extraData : ExtraData) : Except ParseError Parsed := do
  match decodeFunctionData extraData.l1TransactionData with
  | none => throw .decode
  | some stateRoots =>
    let entries ← stateRootEntries event.args 0 stateRoots
    let index ← toNumber event.args.batchIndex
    let size ← toNumber event.args.batchSize
    let prevTotalElements ← toNumber event.args.prevTotalElements
    return {
      stateRootBatchEntry := {
        index
        root := event.args.batchRoot
        size
        prevTotalElements
        extraData := event.args.extraData
        blockNumber := extraData.blockNumber
        timestamp := extraData.timestamp
        submitter := extraData.submitter
        l1TransactionHash := extraData.l1TransactionHash
        type := .LEGACY }
      stateRootEntries := entries }

/-- The batch entry is put before its state roots, and the roots before those are not asked
for. -/
def storeEvent (entry : Parsed) : Ingestion Unit := do
  requirePrevious .stateRootBatch entry.stateRootBatchEntry.index .stateBatchAppended
  putEntries .stateRootBatch [entry.stateRootBatchEntry]
  putEntries .stateRoot entry.stateRootEntries

end StateBatchAppended

def handleEventsStateBatchAppended (decodeFunctionData : Bytes → Option (List Bytes)) :
    EventHandlerSet BatchAppendedArgs StateBatchAppended.ExtraData StateBatchAppended.Parsed where
  getExtraData := StateBatchAppended.getExtraData
  parseEvent := fun event extraData _ =>
    StateBatchAppended.parseEvent decodeFunctionData event extraData
  storeEvent := StateBatchAppended.storeEvent

end DataTransportLayer
