import TokamakTitan.Ingestion.Handlers

/-! The loop of the ingestion service (`l1-ingestion/service.ts`). An iteration picks a range of L1
blocks, syncs the three events over it and records the range as synced; a missing event makes it go
back. A run is a list of starts and iterations, each with the provider's answers, and a crash can
end any of them after any of its writes. -/
namespace DataTransportLayer
open BatchSubmitter CoreUtils
open Traced (Program Outcome get modify fail forEach attempt)

inductive ContractName where
  | canonicalTransactionChain
  | stateCommitmentChain
  deriving DecidableEq

structure EventRange where
  address : Bytes
  fromBlock : ℤ
  toBlock : ℤ
  deriving DecidableEq

structure AddressSetEvent where
  oldAddress : Bytes
  newAddress : Bytes
  blockNumber : ℕ
  deriving DecidableEq

structure Rpc extends Provider where
  getBlockNumber : Option ℕ
  addressSet : ContractName → ℤ → ℤ → Option (List AddressSetEvent)
  getAddress : ContractName → Option Bytes
  transactionEnqueued : EventRange → Option (List (Log TransactionEnqueuedArgs))
  sequencerBatchAppended : EventRange → Option (List (Log SequencerBatchAppendedArgs))
  stateBatchAppended : EventRange → Option (List (Log BatchAppendedArgs))
  findStartingL1BlockNumber : Option ℕ

structure Options where
  confirmations : ℕ
  logsPerPollingInterval : ℕ
  l1StartHeight : Option ℕ
  dangerouslyCatchAllErrors : Bool
  deriving DecidableEq

structure Network where
  zlib : Zlib
  ethers : Ethers
  decodeFunctionData : Bytes → Option (List Bytes)
  l2ChainId : ℕ

/-- One range for each change of the address, and where the range after them begins. -/
def addressRanges (l1BlockRangeStart : ℤ) : List AddressSetEvent → List EventRange × ℤ
  | [] => ([], l1BlockRangeStart)
  | event :: rest =>
    let (ranges, last) := addressRanges event.blockNumber rest
    (⟨event.oldAddress, l1BlockRangeStart, event.blockNumber⟩ :: ranges, last)

section Sync

variable (net : Network) (rpc : Rpc) (startingL1BlockNumber : ℕ)

def getContractAddressAtBlock (contractName : ContractName) (blockNumber : ℤ) : Option Bytes := do
  let events ← rpc.addressSet contractName startingL1BlockNumber blockNumber
  match events.getLast? with
  | some event => return event.newAddress
  | none => return addressZero

/-- Addresses on mainnet do not change; on other networks every change ends a range. -/
def eventRanges (contractName : ContractName) (fromL1Block toL1Block : ℤ) :
    Option (List EventRange) := do
  let addressSetEvents ← rpc.addressSet contractName fromL1Block toL1Block
  if net.l2ChainId = 10 then
    let address ← rpc.getAddress contractName
    return [⟨address, fromL1Block, toL1Block⟩]
  else
    let (ranges, last) := addressRanges fromL1Block addressSetEvents
    let address ← getContractAddressAtBlock rpc startingL1BlockNumber contractName toL1Block
    return ranges ++ [⟨address, last, toL1Block⟩]

variable {Args ExtraData Parsed : Type} (handlers : EventHandlerSet Args ExtraData Parsed)
  (query : EventRange → Option (List (Log Args)))

def handleEvent (event : Log Args) : Ingestion Unit :=
  match handlers.getExtraData event rpc.toProvider with
  | none => fail .rpc
  | some extraData =>
    match handlers.parseEvent event extraData net.l2ChainId with
    | .error e => fail (.parse e)
    | .ok parsedEvent => handlers.storeEvent parsedEvent

def syncRange (eventRange : EventRange) : Ingestion Unit :=
  match query eventRange with
  | none => fail .rpc
  | some events => forEach (handleEvent net rpc handlers) events

def syncEvents (contractName : ContractName) (fromL1Block toL1Block : ℤ) : Ingestion Unit :=
  match eventRanges net rpc startingL1BlockNumber contractName fromL1Block toL1Block with
  | none => fail .rpc
  | some ranges => forEach (syncRange net rpc handlers query) ranges

end Sync

section Loop

variable (net : Network) (options : Options) (rpc : Rpc)

/-- A highest synced block that is missing or zero gives way to the starting block. -/
def highestSyncedL1Block (db : TransportDB) (startingL1BlockNumber : ℕ) : ℤ :=
  if db.getHighestSyncedL1Block = 0 then startingL1BlockNumber else db.getHighestSyncedL1Block

def targetL1Block (highest : ℤ) (currentL1Block : ℕ) : ℤ :=
  min (highest + options.logsPerPollingInterval) (currentL1Block - options.confirmations)

def syncAll (startingL1BlockNumber : ℕ) (highest target : ℤ) : Ingestion Unit := do
  syncEvents net rpc startingL1BlockNumber handleEventsTransactionEnqueued
    rpc.transactionEnqueued .canonicalTransactionChain highest target
  syncEvents net rpc startingL1BlockNumber (handleEventsSequencerBatchAppended net.zlib net.ethers)
    rpc.sequencerBatchAppended .canonicalTransactionChain highest target
  syncEvents net rpc startingL1BlockNumber (handleEventsStateBatchAppended net.decodeFunctionData)
    rpc.stateBatchAppended .stateCommitmentChain highest target
  modify fun db => db.setHighestSyncedL1Block target

def syncPass (startingL1BlockNumber : ℕ) : Ingestion Unit := do
  let db ← get
  let highest := highestSyncedL1Block db startingL1BlockNumber
  match rpc.getBlockNumber with
  | none => fail .rpc
  | some currentL1Block =>
    let target := targetL1Block options highest currentL1Block
    if highest = target then pure ()
    else syncAll net rpc startingL1BlockNumber highest target

/-- The `catch`: back to the last good element, or on, or out of the loop. -/
def recover (running : Bool) (err : IngestionError) : Ingestion Unit :=
  match err with
  | .missingElement name => do
    let db ← get
    match db.lastGoodBlock name with
    | none => fail .unableToRecover
    | some blockNumber => modify fun db => db.setHighestSyncedL1Block blockNumber
  | err => if !running || options.dangerouslyCatchAllErrors then pure () else fail err

def iteration (running : Bool) (startingL1BlockNumber : ℕ) : Ingestion Unit := do
  match ← attempt (syncPass net options rpc startingL1BlockNumber) with
  | .ok _ => pure ()
  | .error err => recover options running err

/-- What the service does before the loop: it settles on a starting block for good. -/
def init : Ingestion ℕ := do
  let db ← get
  match db.startingL1Block.or (options.l1StartHeight.or rpc.findStartingL1BlockNumber) with
  | none | some 0 => fail .rpc
  | some startingL1BlockNumber =>
    modify fun db => db.setStartingL1Block startingL1BlockNumber
    return startingL1BlockNumber

end Loop

structure Service where
  db : TransportDB
  startingL1BlockNumber : Option ℕ

def Service.fresh : Service := ⟨.empty, none⟩

inductive Call where
  | start
  | iterate
  deriving DecidableEq

/-- One call, with the answers that it gets, and the number of its writes that a crash lets
through. -/
structure Step where
  call : Call
  options : Options
  rpc : Rpc
  running : Bool
  crash : Option ℕ

def surviving {α : Type} (db : TransportDB) (o : Outcome TransportDB IngestionError α) :
    ℕ → TransportDB
  | 0 => db
  | writes + 1 => o.trace.getD writes o.state

/-- How a call ends: by a crash, or with a result that says whether the service goes on. -/
def Service.finish {α : Type} (s : Service) (o : Outcome TransportDB IngestionError α)
    (crash : Option ℕ) (goesOn : α → ℕ) : Service :=
  match crash, o.result with
  | some writes, _ => ⟨surviving s.db o writes, none⟩
  | none, .ok a => ⟨o.state, some (goesOn a)⟩
  | none, .error _ => ⟨o.state, none⟩

def Service.step (net : Network) (s : Service) (e : Step) : Service :=
  match e.call, s.startingL1BlockNumber with
  | .start, _ => s.finish ((init e.options e.rpc).run s.db) e.crash id
  | .iterate, none => s
  | .iterate, some starting =>
    s.finish ((iteration net e.options e.rpc e.running starting).run s.db) e.crash fun _ => starting

end DataTransportLayer
