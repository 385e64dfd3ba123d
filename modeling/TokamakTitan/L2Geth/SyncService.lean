import TokamakTitan.L2Geth.StateTransition
import TokamakTitan.Library.Traced

/-! The sync service of l2geth: its persisted indexes, the transactions it applies to the tip, its
restart, and the loops that follow a remote data source. -/
namespace L2Geth.Rollup
open Checked (Address)
open Abi (Bytes)
open Traced (Program get modify fail attempt forEach forRange loop)

structure Transaction where
  recipient : Option Address
  data : Bytes
  gas : ℕ
  sender : Address
  l1MessageSender : Option Address
  l1BlockNumber : Option ℕ
  l1Timestamp : ℕ
  queueOrigin : QueueOrigin
  index : Option ℕ
  queueIndex : Option ℕ
  deriving DecidableEq

inductive Backend where
  | l1
  | l2
  deriving DecidableEq

inductive RpcError where
  | elementNotFound
  | other (reason : String)
  deriving DecidableEq

inductive Error where
  | rpc (reason : RpcError)
  | missingTimestamp
  | inclusion (reason : String)
  | gasPriceOracle (reason : String)
  | noIndex
  | unexpectedIndex (index next : ℕ)
  | blockNotFound (number : ℕ)
  | unexpectedTransactionCount (number : ℕ)
  | latestIndexNotDefined
  | shortRemoteTip (latest index : ℕ)
  | noDeployHeight
  | heightGreaterThanIndex
  | panic (reason : String)
  deriving DecidableEq

/-- The miner reports an error, or a new head arrives, with what the slots of the gas price oracle
read as: its owner, or an error. -/
inductive Inclusion where
  | failed (reason : String)
  | included (oracle : Except String Address)

/-- What the service has asked of the remote and of the miner, with the part of the answer that
decides. -/
inductive Exchange where
  | tip (answer : Except RpcError (Option ℕ))
  | element (failure : Option RpcError)
  | inclusion (index : Option ℕ)

structure EthContext where
  blockNumber : ℕ
  timestamp : ℕ

/-- The answers of the remote, each at a number of earlier exchanges. A batch index of `none` is a
response without a transaction. -/
structure Client where
  latestTransactionIndex : ℕ → Backend → Except RpcError (Option ℕ)
  transaction : ℕ → ℕ → Backend → Except RpcError Transaction
  latestTransactionBatchIndex : ℕ → Except RpcError (Option ℕ)
  transactionBatch : ℕ → ℕ → Except RpcError (List Transaction)
  ethContext : ℕ → ℕ → Except RpcError EthContext
  rawTransactionBatchIndex : ℕ → ℕ → Backend → Except RpcError (Option ℕ)
  lastConfirmedEnqueue : ℕ → Except RpcError Transaction

structure Env where
  verifier : Bool
  backend : Backend
  timestampRefreshThreshold : ℕ
  now : ℕ → ℕ
  miner : ℕ → Transaction → Inclusion
  client : Client

/-- The four head indexes are in the database; `chain` has one transaction for each block after
genesis. The timestamp, the block number and the owner are in memory. -/
structure SyncService where
  headIndex : Option ℕ
  headQueueIndex : Option ℕ
  headVerifiedIndex : Option ℕ
  headBatchIndex : Option ℕ
  chain : List Transaction
  timestamp : ℕ
  blockNumber : ℕ
  gasPriceOracleOwnerAddress : Address
  mismatched : List ℕ
  exchanges : List Exchange

def SyncService.fresh : SyncService where
  headIndex := none
  headQueueIndex := none
  headVerifiedIndex := none
  headBatchIndex := none
  chain := []
  timestamp := 0
  blockNumber := 0
  gasPriceOracleOwnerAddress := 0
  mismatched := []
  exchanges := []

abbrev Action (α : Type) := Program SyncService Error α

def next : Option ℕ → ℕ
  | none => 0
  | some latest => latest + 1

def SyncService.getNextIndex (s : SyncService) : ℕ := next s.headIndex

def SyncService.getNextBatchIndex (s : SyncService) : ℕ := next s.headBatchIndex

def SyncService.getBlockByNumber (s : SyncService) : ℕ → Option (List Transaction)
  | 0 => some []
  | n + 1 => s.chain[n]?.map ([·])

def SyncService.currentBlock (s : SyncService) : List Transaction := s.chain.getLast?.toList

def setLatestL1Timestamp (ts : ℕ) : Action Unit := modify fun s => {s with timestamp := ts}

def setLatestL1BlockNumber (bn : ℕ) : Action Unit := modify fun s => {s with blockNumber := bn}

def setHead (write : ℕ → SyncService → SyncService) : Option ℕ → Action Unit
  | none => pure ()
  | some index => modify (write index)

def setLatestIndex : Option ℕ → Action Unit :=
  setHead fun index s => {s with headIndex := some index}

def setLatestEnqueueIndex : Option ℕ → Action Unit :=
  setHead fun index s => {s with headQueueIndex := some index}

def setLatestVerifiedIndex : Option ℕ → Action Unit :=
  setHead fun index s => {s with headVerifiedIndex := some index}

def setLatestBatchIndex : Option ℕ → Action Unit :=
  setHead fun index s => {s with headBatchIndex := some index}

/-! ### Transactions -/

def checkTimestamp (tx : Transaction) : Action Unit :=
  if tx.queueOrigin = .l1ToL2 ∧ tx.l1Timestamp = 0 then fail .missingTimestamp else pure ()

variable (env : Env)

/-- The sequencer gives queue transactions a timestamp of its own, and every node those without one:
the latest, or the time of the clock when that is far enough ahead. -/
def assignTimestamp (now ts : ℕ) (tx : Transaction) : Transaction :=
  if tx.l1Timestamp = 0 ∨ (env.verifier = false ∧ tx.queueOrigin = .l1ToL2) then
    {tx with l1Timestamp :=
      if ts * 10 ^ 9 + env.timestampRefreshThreshold < now then now / 10 ^ 9 else ts}
  else tx

def advanceBlockNumber (bn number : ℕ) : Action Unit :=
  if bn < number then setLatestL1BlockNumber number else pure ()

def assignBlockNumber (bn : ℕ) (tx : Transaction) : Action Transaction :=
  match tx.l1BlockNumber with
  | none => pure {tx with l1BlockNumber := some bn}
  | some number => do
    advanceBlockNumber bn number
    pure tx

def storeTimestamp (ts : ℕ) (tx : Transaction) : Action Unit :=
  if ts < tx.l1Timestamp then setLatestL1Timestamp tx.l1Timestamp else pure ()

def assignIndex (latest : Option ℕ) (tx : Transaction) : Transaction :=
  match tx.index with
  | none => {tx with index := some (next latest)}
  | some _ => tx

/-- The transaction is sent to the miner; the service waits for its error or for the new head. -/
def includeTransaction (tx : Transaction) : Action Inclusion := do
  let s ← get
  match env.miner s.exchanges.length tx with
  | .failed reason =>
    modify fun s => {s with exchanges := .inclusion tx.index :: s.exchanges}
    pure (.failed reason)
  | .included oracle =>
    modify fun s =>
      {s with
        chain := s.chain ++ [tx]
        exchanges := .inclusion tx.index :: s.exchanges}
    pure (.included oracle)

def undoIndexes (ts bn : ℕ) (index : Option ℕ) : Action Unit := do
  setLatestL1Timestamp ts
  setLatestL1BlockNumber bn
  setLatestIndex index

/-- The owner of the gas price oracle may have changed its prices, so that a transaction of the
owner refreshes the cache. -/
def finishInclusion (ts bn : ℕ) (index : Option ℕ) (tx : Transaction) : Inclusion → Action Unit
  | .failed reason => do
    undoIndexes ts bn index
    fail (.inclusion reason)
  | .included oracle => do
    let s ← get
    if tx.sender = s.gasPriceOracleOwnerAddress then
      match oracle with
      | .ok owner => modify fun s => {s with gasPriceOracleOwnerAddress := owner}
      | .error reason => do
        undoIndexes ts bn index
        fail (.gasPriceOracle reason)
    else pure ()

def applyTransactionToTip (tx : Transaction) : Action Unit := do
  checkTimestamp tx
  let s ← get
  let tx ← assignBlockNumber s.blockNumber
    (assignTimestamp env (env.now s.exchanges.length) s.timestamp tx)
  storeTimestamp s.timestamp tx
  let tx := assignIndex s.headIndex tx
  setLatestIndex tx.index
  setLatestEnqueueIndex tx.queueIndex
  let inclusion ← includeTransaction env tx
  finishInclusion s.timestamp s.blockNumber s.headIndex tx inclusion

/-- The comparison of the remote's transaction with the applied one. A missing recipient on the left
matches the zero address. -/
def isCtcTxEqual (a b : Transaction) : Bool :=
  (match a.recipient, b.recipient with
    | none, some applied => decide (applied = 0)
    | some _, none => false
    | none, none => true
    | some given, some applied => decide (given = applied)) &&
  decide (a.data = b.data) &&
  decide (a.l1MessageSender = b.l1MessageSender) &&
  decide (a.gas = b.gas)

def applyHistoricalTransaction (tx : Transaction) (index : ℕ) : Action Unit := do
  let s ← get
  match s.getBlockByNumber (index + 1) with
  | none => fail (.blockNotFound (index + 1))
  | some [applied] =>
    if isCtcTxEqual tx applied then pure ()
    else modify fun s => {s with mismatched := index :: s.mismatched}
  | some _ => fail (.unexpectedTransactionCount (index + 1))

def applyIndexedTransaction (tx : Transaction) : Action Unit :=
  match tx.index with
  | none => fail .noIndex
  | some index => do
    let s ← get
    if index = s.getNextIndex then applyTransactionToTip env tx
    else if index < s.getNextIndex then applyHistoricalTransaction tx index
    else fail (.unexpectedIndex index s.getNextIndex)

def applyTransaction (tx : Transaction) : Action Unit :=
  match tx.index with
  | some _ => applyIndexedTransaction env tx
  | none => applyTransactionToTip env tx

def applyBatchedTransaction (tx : Transaction) : Action Unit :=
  match tx.index with
  | none => fail .noIndex
  | some index => do
    applyIndexedTransaction env tx
    setLatestVerifiedIndex (some index)

/-! ### Requests -/

def request {α : Type} (answer : ℕ → Except RpcError α) : Action α := do
  let s ← get
  match answer s.exchanges.length with
  | .ok a => do
    modify fun s => {s with exchanges := .element none :: s.exchanges}
    pure a
  | .error reason => do
    modify fun s => {s with exchanges := .element (some reason) :: s.exchanges}
    fail (.rpc reason)

def requestTip (answer : ℕ → Except RpcError (Option ℕ)) : Action (Option ℕ) := do
  let s ← get
  modify fun s => {s with exchanges := .tip (answer s.exchanges.length) :: s.exchanges}
  match answer s.exchanges.length with
  | .ok latest => pure latest
  | .error reason => fail (.rpc reason)

/-! ### Loops -/

def isAtTip (index : Option ℕ) (get : Action (Option ℕ)) : Action Bool := do
  match ← attempt get with
  | .error (.rpc .elementNotFound) => pure index.isNone
  | .error e => fail e
  | .ok latest =>
    match latest, index with
    | none, none => pure true
    | some latest, some index =>
      if latest = index then pure true
      else if latest < index then fail (.shortRemoteTip latest index)
      else pure false
    | _, _ => pure false

/-- The loop runs until it returns; `false` means that it is still running after `fuel` rounds. -/
def syncToTip (sync : Action (Option ℕ)) (getTip : Action (Option ℕ)) (fuel : ℕ) : Action Bool :=
  loop (do
    match ← attempt sync with
    | .error (.rpc .elementNotFound) => pure true
    | .error e => fail e
    | .ok index => isAtTip index getTip) fuel

def sync (getLatest : Action (Option ℕ)) (getNext : SyncService → ℕ)
    (syncer : ℕ → ℕ → Action Unit) : Action (Option ℕ) := do
  match ← getLatest with
  | none => fail .latestIndexNotDefined
  | some latest => do
    let s ← get
    if getNext s = latest + 1 then pure (some latest)
    else do
      syncer (getNext s) latest
      pure (some latest)

def syncTransactionBatchRange (start stop : ℕ) : Action Unit :=
  forRange (fun i => do
    let txs ← request fun t => env.client.transactionBatch t i
    forEach (applyBatchedTransaction env) txs
    setLatestBatchIndex (some i)) start (stop + 1 - start)

def syncBatches : Action (Option ℕ) :=
  sync (requestTip env.client.latestTransactionBatchIndex) SyncService.getNextBatchIndex
    (syncTransactionBatchRange env)

def syncTransactionRange (backend : Backend) (start stop : ℕ) : Action Unit :=
  forRange (fun i => do
    let tx ← request fun t => env.client.transaction t i backend
    applyTransaction env tx) start (stop + 1 - start)

def syncTransactions (backend : Backend) : Action (Option ℕ) :=
  sync (requestTip fun t => env.client.latestTransactionIndex t backend) SyncService.getNextIndex
    (syncTransactionRange env backend)

def syncBatchesToTip : ℕ → Action Bool :=
  syncToTip (syncBatches env) (requestTip env.client.latestTransactionBatchIndex)

def syncTransactionsToTip : ℕ → Action Bool :=
  syncToTip (syncTransactions env env.backend)
    (requestTip fun t => env.client.latestTransactionIndex t env.backend)

/-! ### Restart -/

variable (ctcDeployHeight : Option ℕ)

def initializeContext : Action Unit :=
  match ctcDeployHeight with
  | none => fail .noDeployHeight
  | some height => do
    let context ← request fun t => env.client.ethContext t height
    setLatestL1Timestamp context.timestamp
    setLatestL1BlockNumber context.blockNumber

/-- Recover from skipped batches: the last batch is the one before that of the transaction at the
latest index. -/
def recoverBatchIndex (index : ℕ) : Action Unit :=
  if env.verifier = true ∧ env.backend = .l1 then do
    match ← request fun t => env.client.rawTransactionBatchIndex t index env.backend with
    | none => fail (.panic "invalid memory address or nil pointer dereference")
    | some batchIndex =>
      setLatestBatchIndex (some (if 0 < batchIndex then batchIndex - 1 else batchIndex))
  else pure ()

def recoverContext : List Transaction → Action Unit
  | [tx] =>
    match tx.l1BlockNumber with
    | none => fail (.panic "invalid memory address or nil pointer dereference")
    | some number => do
      setLatestL1Timestamp tx.l1Timestamp
      setLatestL1BlockNumber number
  | _ => fail (.panic "Cannot recover OVM Context")

def recoverIndex (index : ℕ) : Action Unit := do
  let s ← get
  match s.getBlockByNumber (index + 1) with
  | some txs => recoverContext txs
  | none =>
    if index < s.chain.length then fail .heightGreaterThanIndex
    else do
      setLatestIndex (if 0 < s.chain.length then some (s.chain.length - 1) else none)
      recoverContext s.currentBlock

/-- The search for a queue index, from block `num` back to the genesis block. -/
def SyncService.findQueueIndex (s : SyncService) (queueIndex : ℕ) : ℕ → Option ℕ
  | 0 => none
  | num + 1 =>
    match s.getBlockByNumber (num + 1) with
    | some [tx] =>
      match tx.queueIndex with
      | some qi => some qi
      | none => s.findQueueIndex queueIndex num
    | _ => some queueIndex

def recoverQueueIndex : Action Unit := do
  let s ← get
  match s.headQueueIndex with
  | none => do
    match ← attempt (request env.client.lastConfirmedEnqueue) with
    | .error (.rpc .elementNotFound) => pure ()
    | .error e => fail e
    | .ok enqueue => setLatestEnqueueIndex enqueue.queueIndex
  | some queueIndex => setLatestEnqueueIndex (s.findQueueIndex queueIndex s.chain.length)

def recoverHead : Action Unit := do
  let s ← get
  match s.headIndex with
  | none => initializeContext env ctcDeployHeight
  | some index => do
    recoverBatchIndex env index
    recoverIndex index

def initializeLatestL1 : Action Unit := do
  recoverHead env ctcDeployHeight
  recoverQueueIndex env

end L2Geth.Rollup
