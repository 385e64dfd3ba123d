import TokamakTitan.Batch.Ingestion
import TokamakTitan.Library.InitialSegment
import TokamakTitan.Library.Traced

/-! The database of the data transport layer (`db/transport-db.ts` over `db/simple-db.ts`). A put is
one atomic write, and the latest index of a key is put after the entries; each write is a point at
which a crash can leave the database. -/
namespace DataTransportLayer
open BatchSubmitter CoreUtils
open Traced (Program get modify fail)

structure EnqueueEntry where
  index : ℕ
  target : Bytes
  data : Bytes
  gasLimit : ℕ
  origin : Bytes
  blockNumber : ℕ
  timestamp : ℕ
  ctcIndex : Option ℕ
  deriving DecidableEq

structure StateRootEntry where
  index : ℕ
  batchIndex : ℕ
  value : Bytes
  confirmed : Bool
  deriving DecidableEq

abbrev StateRootBatchEntry := TransactionBatchEntry

class Indexed (Entry : Type) where
  index : Entry → ℕ

instance : Indexed EnqueueEntry := ⟨EnqueueEntry.index⟩

instance : Indexed TransactionEntry := ⟨TransactionEntry.index⟩

instance : Indexed TransactionBatchEntry := ⟨TransactionBatchEntry.index⟩

instance : Indexed StateRootEntry := ⟨StateRootEntry.index⟩

inductive Key where
  | enqueue
  | enqueueCtcIndex
  | transaction
  | transactionBatch
  | stateRoot
  | stateRootBatch
  deriving DecidableEq

abbrev Key.Value : Key → Type
  | .enqueue => EnqueueEntry
  | .enqueueCtcIndex => ℕ
  | .transaction => TransactionEntry
  | .transactionBatch => TransactionBatchEntry
  | .stateRoot => StateRootEntry
  | .stateRootBatch => StateRootBatchEntry

structure SyncedBlocks where
  startingL1Block : Option ℕ
  highestSyncedL1Block : Option ℤ
  deriving DecidableEq

structure TransportDB extends SyncedBlocks where
  store : (key : Key) → ℕ → Option key.Value
  latest : Key → Option ℕ

def TransportDB.empty : TransportDB := ⟨⟨none, none⟩, fun _ _ => none, fun _ => none⟩

inductive EventName where
  | transactionEnqueued
  | sequencerBatchAppended
  | stateBatchAppended
  | sequencerBatchAppendedTransaction
  deriving DecidableEq

inductive IngestionError where
  | missingElement (name : EventName)
  | rpc
  | parse (error : ParseError)
  | invalidIndex
  | unableToRecover
  deriving DecidableEq

abbrev Ingestion := Program TransportDB IngestionError

namespace TransportDB

variable (db : TransportDB) (key : Key)

def put (entries : List (ℕ × key.Value)) : TransportDB :=
  {db with store := Function.update db.store key (InitialSegment.putAll entries (db.store key))}

def putLatestEntryIndex (index : ℕ) : TransportDB :=
  {db with latest := Function.update db.latest key (some index)}

def setHighestSyncedL1Block (block : ℤ) : TransportDB :=
  {db with highestSyncedL1Block := some block}

def setStartingL1Block (block : ℕ) : TransportDB :=
  {db with startingL1Block := some block}

def getHighestSyncedL1Block : ℤ := db.highestSyncedL1Block.getD 0

def getLatestEntry : Option key.Value :=
  (db.latest key).bind (db.store key)

def lastGoodBlock : EventName → Option ℕ
  | .sequencerBatchAppended =>
    (db.getLatestEntry .transactionBatch).map TransactionBatchEntry.blockNumber
  | .sequencerBatchAppendedTransaction =>
    (db.getLatestEntry .transaction).map TransactionEntry.blockNumber
  | .stateBatchAppended =>
    (db.getLatestEntry .stateRootBatch).map TransactionBatchEntry.blockNumber
  | .transactionEnqueued => (db.getLatestEntry .enqueue).map EnqueueEntry.blockNumber

end TransportDB

/-- A latest index that is missing reads as `null`, which compares as zero. -/
def putLatestEntry (key : Key) [Indexed key.Value] (entry : key.Value) : Ingestion Unit := do
  let db ← get
  if (db.latest key).getD 0 ≤ Indexed.index entry then
    modify fun db => db.putLatestEntryIndex key (Indexed.index entry)

def putEntries (key : Key) [Indexed key.Value] (entries : List key.Value) : Ingestion Unit :=
  match entries.getLast? with
  | none => pure ()
  | some last => do
    modify fun db => db.put key (entries.map fun entry => (Indexed.index entry, entry))
    putLatestEntry key last

def putTransactionIndexByQueueIndex (queueIndex index : ℕ) : Ingestion Unit :=
  modify fun db => db.put .enqueueCtcIndex [(queueIndex, index)]

end DataTransportLayer
