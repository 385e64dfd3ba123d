import TokamakTitan.Batch.Decoding
import TokamakTitan.Library.Checked
import TokamakTitan.Library.RlpSplit
import TokamakTitan.Library.Zlib

/-! The handler of `SequencerBatchAppended` (`l1-ingestion/handlers/sequencer-batch-appended.ts`)
expands a decoded batch into one transaction entry for each element. Hexadecimal and decimal strings
stand as the bytes and numbers that they print, and a big number becomes a JavaScript number only
below `2 ^ 53`. -/
namespace DataTransportLayer
open BatchSubmitter CoreUtils
open BigEndian (encode decode)
open Rlp (uintBytes)

structure Transaction where
  nonce : ℕ
  gasPrice : ℕ
  gasLimit : ℕ
  toAddress : Option Bytes
  value : ℕ
  data : Bytes
  v : ℕ
  r : Bytes
  s : Bytes
  deriving DecidableEq

structure UnsignedTransaction where
  nonce : ℕ
  gasPrice : ℕ
  gasLimit : ℕ
  toAddress : Option Bytes
  value : ℕ
  data : Bytes
  deriving DecidableEq

structure SignatureLike where
  v : ℕ
  r : Bytes
  s : Bytes
  deriving DecidableEq

structure Ethers where
  parse : Bytes → Option Transaction
  serialize : UnsignedTransaction → SignatureLike → Bytes

structure DecodedSequencerBatchTransaction where
  nonce : ℕ
  gasPrice : ℕ
  gasLimit : ℕ
  value : ℕ
  target : Option Bytes
  data : Bytes
  v : ℤ
  r : Bytes
  s : Bytes
  deriving DecidableEq

inductive QueueOrigin where
  | sequencer
  | l1
  deriving DecidableEq

structure TransactionEntry where
  index : ℕ
  batchIndex : ℕ
  blockNumber : ℕ
  timestamp : ℕ
  gasLimit : ℕ
  target : Bytes
  origin : Option Bytes
  data : Bytes
  queueOrigin : QueueOrigin
  value : ℕ
  queueIndex : Option ℕ
  decoded : Option DecodedSequencerBatchTransaction
  confirmed : Bool
  deriving DecidableEq

structure TransactionBatchEntry where
  index : ℕ
  root : Bytes
  size : ℕ
  prevTotalElements : ℕ
  extraData : Bytes
  blockNumber : ℕ
  timestamp : ℕ
  submitter : Bytes
  l1TransactionHash : Bytes
  type : DecodedType
  deriving DecidableEq

structure SequencerBatchAppendedEvent where
  startingQueueIndex : ℕ
  deriving DecidableEq

structure SequencerBatchAppendedExtraData where
  timestamp : ℕ
  blockNumber : ℕ
  submitter : Bytes
  l1TransactionHash : Bytes
  l1TransactionData : Bytes
  prevTotalElements : ℕ
  batchIndex : ℕ
  batchSize : ℕ
  batchRoot : Bytes
  batchExtraData : Bytes
  deriving DecidableEq

structure ParsedEvent where
  transactionBatchEntry : TransactionBatchEntry
  transactionEntries : List TransactionEntry
  deriving DecidableEq

inductive ParseError where
  | tooSmall (blockNumber length : ℕ)
  | decode
  | invalidBatchContext (txCount index : ℕ)
  | parseTransaction
  | overflow (value : ℕ)
  deriving DecidableEq

def toNumber (n : ℕ) : Except ParseError ℕ := Checked.safeNumber (.overflow n) n

def addressZero : Bytes := List.replicate 20 0

def parseSignatureVParam (v chainId : ℕ) : ℤ :=
  if v = 27 ∨ v = 28 then v else (v : ℤ) - 2 * chainId - 35

def mapSequencerTransaction (tx : Transaction) (l2ChainId : ℕ) : DecodedSequencerBatchTransaction :=
  { nonce := tx.nonce
    gasPrice := tx.gasPrice
    gasLimit := tx.gasLimit
    value := tx.value
    target := tx.toAddress
    data := tx.data
    v := parseSignatureVParam tx.v l2ChainId
    r := tx.r
    s := tx.s }

def Ethers.serializeTransaction (ethers : Ethers) (tx : Transaction) : Bytes :=
  ethers.serialize ⟨tx.nonce, tx.gasPrice, tx.gasLimit, tx.toAddress, tx.value, tx.data⟩
    ⟨tx.v, tx.r, tx.s⟩

structure Expansion where
  transactionEntries : List TransactionEntry
  transactionIndex : ℕ
  enqueuedCount : ℕ
  index : ℕ
  deriving DecidableEq

section Expand

variable (ethers : Ethers) (event : SequencerBatchAppendedEvent)
  (extraData : SequencerBatchAppendedExtraData) (l2ChainId : ℕ)
  (transactions : List BatchedTx)

def sequencerEntry (index batchIndex : ℕ) (context : Context) (tx : Transaction) :
    TransactionEntry :=
  { index := index
    batchIndex
    blockNumber := context.blockNumber
    timestamp := context.timestamp
    gasLimit := 0
    target := addressZero
    origin := none
    data := ethers.serializeTransaction tx
    queueOrigin := .sequencer
    value := tx.value
    queueIndex := none
    decoded := some (mapSequencerTransaction tx l2ChainId)
    confirmed := true }

def enqueuedEntry (index batchIndex queueIndex : ℕ) (context : Context) : TransactionEntry :=
  { index := index
    batchIndex
    blockNumber := 0
    timestamp := context.timestamp
    gasLimit := 0
    target := addressZero
    origin := some addressZero
    data := []
    queueOrigin := .l1
    value := 0
    queueIndex := some queueIndex
    decoded := none
    confirmed := true }

def pushSequenced (context : Context) (s : Expansion) : Except ParseError Expansion := do
  match transactions[s.index]? with
  | none => throw (.invalidBatchContext transactions.length s.index)
  | some buf =>
    match ethers.parse buf.raw with
    | none => throw .parseTransaction
    | some tx =>
      let index ← toNumber (extraData.prevTotalElements + s.transactionIndex)
      let batchIndex ← toNumber extraData.batchIndex
      let entry := sequencerEntry ethers l2ChainId index batchIndex context tx
      return { s with
        transactionEntries := s.transactionEntries ++ [entry]
        transactionIndex := s.transactionIndex + 1
        index := s.index + 1 }

def pushQueued (context : Context) (s : Expansion) : Except ParseError Expansion := do
  let index ← toNumber (extraData.prevTotalElements + s.transactionIndex)
  let batchIndex ← toNumber extraData.batchIndex
  let queueIndex ← toNumber (event.startingQueueIndex + s.enqueuedCount)
  return { s with
    transactionEntries := s.transactionEntries ++
      [enqueuedEntry index batchIndex queueIndex context]
    enqueuedCount := s.enqueuedCount + 1
    transactionIndex := s.transactionIndex + 1 }

def iterate (body : Expansion → Except ParseError Expansion) :
    ℕ → Expansion → Except ParseError Expansion
  | 0, s => .ok s
  | n + 1, s => do
    let s ← body s
    iterate body n s

def expandContexts : List Context → Expansion → Except ParseError Expansion
  | [], s => .ok s
  | context :: contexts, s => do
    let s ← iterate (pushSequenced ethers extraData l2ChainId transactions context)
      context.numSequencedTransactions s
    let s ← iterate (pushQueued event extraData context) context.numSubsequentQueueTransactions s
    expandContexts contexts s

end Expand

def hexStringLength (bytes : Bytes) : ℕ := 2 + 2 * bytes.length

def parseEvent (zlib : Zlib) (ethers : Ethers) (event : SequencerBatchAppendedEvent)
    (extraData : SequencerBatchAppendedExtraData) (l2ChainId : ℕ) :
    Except ParseError ParsedEvent := do
  if hexStringLength extraData.l1TransactionData < 26 then
    throw (.tooSmall extraData.blockNumber (hexStringLength extraData.l1TransactionData))
  match SequencerBatch.read zlib extraData.l1TransactionData with
  | none => throw .decode
  | some decoded =>
    let s ← expandContexts ethers event extraData l2ChainId decoded.transactions
      decoded.contexts ⟨[], 0, 0, 0⟩
    let index ← toNumber extraData.batchIndex
    let size ← toNumber extraData.batchSize
    let prevTotalElements ← toNumber extraData.prevTotalElements
    return {
      transactionBatchEntry := {
        index
        root := extraData.batchRoot
        size
        prevTotalElements
        extraData := extraData.batchExtraData
        blockNumber := extraData.blockNumber
        timestamp := extraData.timestamp
        submitter := extraData.submitter
        l1TransactionHash := extraData.l1TransactionHash
        type := decoded.type }
      transactionEntries := s.transactionEntries }

/-- Legacy transactions, as the recursive length prefix encoding of their fields. -/
def legacyEthers : Ethers where
  parse raw := do
    let (content, _) ← Rlp.splitList raw
    match ← Rlp.splitStrings content.length content with
    | [nonce, gasPrice, gasLimit, toAddress, value, data, v, r, s] =>
      some ⟨decode nonce, decode gasPrice, decode gasLimit,
        if toAddress = [] then none else some toAddress, decode value, data, decode v, r, s⟩
    | _ => none
  serialize tx signature := Rlp.encodeList ([uintBytes tx.nonce, uintBytes tx.gasPrice,
    uintBytes tx.gasLimit, tx.toAddress.getD [], uintBytes tx.value, tx.data,
    uintBytes signature.v, signature.r, signature.s].map Rlp.encodeString)

def legacyTx (nonce : ℕ) : Transaction :=
  ⟨nonce, 1000000, 21000, some (encode 20 0xa2), 5, [], 37, encode 32 7, encode 32 8⟩

def storedZlib : Zlib where
  deflate bytes :=
    let written := Zlib.stored.write Zlib.stored.newWriter bytes
    written.2 ++ Zlib.stored.close written.1
  inflate bytes :=
    match Zlib.stored.inflate bytes with
    | .ok ⟨data, none⟩ => some data
    | _ => none

theorem storedZlib_lossless (bytes : Bytes) :
    storedZlib.inflate (storedZlib.deflate bytes) = some bytes := by
  have hread : Zlib.stored.inflate (storedZlib.deflate bytes) = .ok ⟨bytes, none⟩ :=
    Zlib.stored_lossless (.write bytes .start)
  simp only [storedZlib] at hread ⊢
  rw [hread]

end DataTransportLayer
