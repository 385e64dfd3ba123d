import TokamakTitan.Library.BigEndian

/-! The sequencer driver of the batch submitter: grouping L2 blocks into contexts
(`drivers/sequencer/batch.go`) and encoding a batch (`drivers/sequencer/encoding.go`). Go's `uint64`
values are natural numbers; the one subtraction that can wrap is taken modulo `2 ^ 64`. -/
namespace BatchSubmitter
open BigEndian

abbrev Bytes := List UInt8

structure CachedTx where
  rawTx : Bytes
  deriving DecidableEq

def CachedTx.size (t : CachedTx) : ℕ := t.rawTx.length

structure BatchElement where
  timestamp : ℕ
  blockNumber : ℕ
  tx : Option CachedTx
  deriving DecidableEq

def BatchElement.isSequencerTx (b : BatchElement) : Bool := b.tx.isSome

structure GroupedBlock where
  sequenced : List BatchElement
  queued : List BatchElement
  deriving DecidableEq

structure BatchContext where
  numSequencedTxs : ℕ
  numSubsequentQueueTxs : ℕ
  timestamp : ℕ
  blockNumber : ℕ
  deriving DecidableEq

structure AppendSequencerBatchParams where
  shouldStartAtElement : ℕ
  totalElementsToAppend : ℕ
  contexts : List BatchContext
  txs : List CachedTx
  deriving DecidableEq

inductive BatchType where
  | legacy
  | zlib
  | unknown (code : ℤ)
  deriving DecidableEq

inductive BatchError where
  | blockWithInvalidContext
  | malformedBatch
  | unknownBatchType (batchType : BatchType)
  | invalidNumberOfBytes (n : ℕ)
  | cannotEncode (val n : ℕ)
  deriving DecidableEq

structure Grouping where
  groupedBlocks : List GroupedBlock
  txs : List CachedTx
  lastBlockIsSequencerTx : Bool
  lastTimestamp : ℕ
  lastBlockNumber : ℕ
  deriving DecidableEq

def Grouping.init : Grouping := ⟨[], [], false, 0, 0⟩

def GroupedBlock.append (el : BatchElement) (g : GroupedBlock) : GroupedBlock :=
  if el.isSequencerTx then {g with sequenced := g.sequenced ++ [el]}
  else {g with queued := g.queued ++ [el]}

def Grouping.needsNewGroup (s : Grouping) (el : BatchElement) : Bool :=
  s.groupedBlocks.length == 0 || el.timestamp != s.lastTimestamp ||
    (el.isSequencerTx && (!s.lastBlockIsSequencerTx || el.blockNumber != s.lastBlockNumber))

def Grouping.step (s : Grouping) (el : BatchElement) : Grouping :=
  let groupedBlocks :=
    if s.needsNewGroup el then s.groupedBlocks ++ [⟨[], []⟩] else s.groupedBlocks
  { groupedBlocks := groupedBlocks.modifyLast (GroupedBlock.append el)
    txs := s.txs ++ el.tx.toList
    lastBlockIsSequencerTx := el.isSequencerTx
    lastTimestamp := el.timestamp
    lastBlockNumber := el.blockNumber }

def groupBatch (batch : List BatchElement) : Grouping := batch.foldl Grouping.step Grouping.init

/-- The context of one group: a sequencer transaction takes precedence over a queued one. -/
def GroupedBlock.context (g : GroupedBlock) : Except BatchError BatchContext :=
  match g.sequenced, g.queued with
  | [], [] => .error .blockWithInvalidContext
  | s :: _, _ => .ok ⟨g.sequenced.length, g.queued.length, s.timestamp, s.blockNumber⟩
  | [], q :: _ => .ok ⟨g.sequenced.length, g.queued.length, q.timestamp, q.blockNumber⟩

def genSequencerBatchParams (shouldStartAtElement blockOffset : ℕ) (batch : List BatchElement) :
    Except BatchError AppendSequencerBatchParams := do
  let s := groupBatch batch
  let contexts ← s.groupedBlocks.mapM GroupedBlock.context
  return { shouldStartAtElement := (shouldStartAtElement + 2 ^ 64 - blockOffset) % 2 ^ 64
           totalElementsToAppend := batch.length
           contexts
           txs := s.txs }

/-- Writes the bottom `n` bytes of `val`, and panics when they do not hold it. -/
def writeUint64 (val n : ℕ) : Except BatchError Bytes :=
  if n < 1 ∨ 8 < n then .error (.invalidNumberOfBytes n)
  else if 256 ^ n ≤ val then .error (.cannotEncode val n)
  else .ok (encode n val)

def BatchContext.write (c : BatchContext) : Except BatchError Bytes := do
  let a ← writeUint64 c.numSequencedTxs 3
  let b ← writeUint64 c.numSubsequentQueueTxs 3
  let t ← writeUint64 c.timestamp 5
  let n ← writeUint64 c.blockNumber 5
  return a ++ b ++ t ++ n

def BatchType.markerContext : BatchType → List BatchContext
  | .zlib => [⟨0, 0, 0, 0⟩]
  | .legacy => []
  | .unknown _ => []

def txLenSize : ℕ := 3

def CachedTx.write (tx : CachedTx) : Except BatchError Bytes := do
  let size ← writeUint64 tx.size txLenSize
  return size ++ tx.rawTx

def writeAll {α : Type} (write : α → Except BatchError Bytes) (xs : List α) :
    Except BatchError Bytes := do
  let chunks ← xs.mapM write
  return chunks.flatten

structure Zlib where
  deflate : Bytes → Bytes
  inflate : Bytes → Option Bytes

def AppendSequencerBatchParams.write (zlib : Zlib) (p : AppendSequencerBatchParams)
    (batchType : BatchType) : Except BatchError Bytes := do
  let start ← writeUint64 p.shouldStartAtElement 5
  let total ← writeUint64 p.totalElementsToAppend 3
  -- There must be contexts if there are transactions.
  if p.contexts.length = 0 ∧ p.txs.length ≠ 0 then throw .malformedBatch
  let contexts := batchType.markerContext ++ p.contexts
  let count ← writeUint64 contexts.length 3
  let contextBytes ← writeAll BatchContext.write contexts
  let header := start ++ total ++ count ++ contextBytes
  match batchType with
  | .legacy =>
    let txs ← writeAll CachedTx.write p.txs
    return header ++ txs
  | .zlib =>
    let txs ← writeAll CachedTx.write p.txs
    return header ++ zlib.deflate txs
  | .unknown code => throw (.unknownBatchType (.unknown code))

def AppendSequencerBatchParams.serialize (zlib : Zlib) (p : AppendSequencerBatchParams)
    (batchType : BatchType) : Except BatchError Bytes := p.write zlib batchType

end BatchSubmitter
