import TokamakTitan.Batch.Encoding

/-! The TypeScript decoder of batch calldata, `SequencerBatch.read` of core-utils. Reading past the
end of the buffer throws. -/
namespace CoreUtils
open BigEndian BatchSubmitter

structure Context where
  numSequencedTransactions : ℕ
  numSubsequentQueueTransactions : ℕ
  timestamp : ℕ
  blockNumber : ℕ
  deriving DecidableEq

structure BatchedTx where
  txSize : ℕ
  raw : Bytes
  deriving DecidableEq

inductive DecodedType where
  | LEGACY
  | ZLIB
  deriving DecidableEq

structure SequencerBatch where
  shouldStartAtElement : ℕ
  totalElementsToAppend : ℕ
  contexts : List Context
  transactions : List BatchedTx
  type : DecodedType
  deriving DecidableEq

def FOUR_BYTE_APPEND_SEQUENCER_BATCH : Bytes := [0xd0, 0xf8, 0x93, 0x44]

def Context.read (br : Bytes) : Option (Context × Bytes) := do
  let (numSequencedTransactions, br) ← readNat 3 br
  let (numSubsequentQueueTransactions, br) ← readNat 3 br
  let (timestamp, br) ← readNat 5 br
  let (blockNumber, br) ← readNat 5 br
  return (⟨numSequencedTransactions, numSubsequentQueueTransactions, timestamp, blockNumber⟩, br)

def BatchedTx.read (br : Bytes) : Option (BatchedTx × Bytes) := do
  let (txSize, br) ← readNat 3 br
  let (raw, br) ← readBytes txSize br
  return (⟨txSize, raw⟩, br)

def readMany {α : Type} (read : Bytes → Option (α × Bytes)) : ℕ → Bytes →
    Option (List α × Bytes)
  | 0, br => some ([], br)
  | n + 1, br => do
    let (a, br) ← read br
    let (as, br) ← readMany read n br
    return (a :: as, br)

def readTransactions : List Context → Bytes → Option (List BatchedTx × Bytes)
  | [], br => some ([], br)
  | context :: contexts, br => do
    let (txs, br) ← readMany BatchedTx.read context.numSequencedTransactions br
    let (rest, br) ← readTransactions contexts br
    return (txs ++ rest, br)

/-- Typed batches carry a dummy first context with timestamp zero; type `0` is deflated. An unknown
type is decoded as a legacy batch with its dummy context. -/
def openTyped (zlib : Zlib) (contexts : List Context) (br : Bytes) :
    Option (DecodedType × List Context × Bytes) :=
  match contexts with
  | [] => some (.LEGACY, [], br)
  | context :: rest =>
    if context.timestamp = 0 ∧ context.blockNumber = 0 then
      (zlib.inflate br).map fun inflated => (.ZLIB, rest, inflated)
    else some (.LEGACY, context :: rest, br)

def SequencerBatch.read (zlib : Zlib) (bytes : Bytes) : Option SequencerBatch := do
  let (selector, rest) ← readBytes 4 bytes
  -- `seek(-4)` when the calldata does not start with the selector
  let br := if selector = FOUR_BYTE_APPEND_SEQUENCER_BATCH then rest else bytes
  let (shouldStartAtElement, br) ← readNat 5 br
  let (totalElementsToAppend, br) ← readNat 3 br
  let (count, br) ← readNat 3 br
  let (contexts, br) ← readMany Context.read count br
  let (type, contexts, br) ← openTyped zlib contexts br
  let (transactions, _) ← readTransactions contexts br
  return ⟨shouldStartAtElement, totalElementsToAppend, contexts, transactions, type⟩

end CoreUtils
