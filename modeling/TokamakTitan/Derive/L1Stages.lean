import TokamakTitan.Derive.Channel
import TokamakTitan.Derive.EngineQueue
import TokamakTitan.Derive.FindHeads

/-! The stages in front of the batch queue: the L1 blocks, the data of their batcher transactions,
the bank of channels, and the reader of a channel. -/
namespace Derive

structure InboxConfig where
  batchInboxAddress : Address
  batchSenderAddress : Address
  deriving DecidableEq

structure L1Tx where
  recipient : Option Address
  sender : Except String Address
  data : Bytes

abbrev TxsByHash := Hash → Except QueryError (List L1Tx)

def dataFromEVMTransactions (inbox : InboxConfig) (txs : List L1Tx) : List Bytes :=
  txs.filterMap fun tx =>
    if tx.recipient = some inbox.batchInboxAddress then
      match tx.sender with
      | .error _ => none
      | .ok seqDataSubmitter =>
        if seqDataSubmitter = inbox.batchSenderAddress then some tx.data else none
    else none

structure DataSource where
  isOpen : Bool
  data : List Bytes
  id : BlockID
  deriving DecidableEq

namespace DataSource

variable (inbox : InboxConfig) (txs : TxsByHash)

def new (block : BlockID) : DataSource :=
  match txs block.hash with
  | .error _ => { isOpen := false, data := [], id := block }
  | .ok txs =>
    { isOpen := true
      data := dataFromEVMTransactions inbox txs
      id := ⟨0, 0⟩ }

def reopen (ds : DataSource) : Except Error DataSource :=
  if ds.isOpen then .ok ds
  else match txs ds.id.hash with
    | .ok txs => .ok { ds with isOpen := true, data := dataFromEVMTransactions inbox txs }
    | .error .notFound => .error (.reset "failed to open calldata source: not found")
    | .error (.other err) => .error (.temporary s!"failed to open calldata source: {err}")

def next (ds : DataSource) : DataSource × Except Error Bytes :=
  match ds.reopen inbox txs with
  | .error err => (ds, .error err)
  | .ok ds =>
    match ds.data with
    | [] => (ds, .error .eof)
    | data :: rest => ({ ds with data := rest }, .ok data)

end DataSource

structure L1Traversal where
  block : L1BlockRef
  done : Bool
  deriving DecidableEq

namespace L1Traversal

def nextL1Block (t : L1Traversal) : L1Traversal × Except Error L1BlockRef :=
  if t.done then (t, .error .eof) else ({ t with done := true }, .ok t.block)

def advanceL1Block (l1 : L1Source) (t : L1Traversal) : L1Traversal × Except Error Unit :=
  match l1 (t.block.number + 1) with
  | .error .notFound => (t, .error .eof)
  | .error (.other err) =>
    (t, .error (.temporary s!"failed to find L1 block info by number: {err}"))
  | .ok nextL1Origin =>
    if t.block.hash ≠ nextL1Origin.parentHash then
      (t, .error (.reset "detected L1 reorg with conflicting parent"))
    else ({ block := nextL1Origin, done := false }, .ok ())

end L1Traversal

def maxChannelBankSize : Uint64 := 100000000

structure ChannelBank where
  channels : AList fun _ : ChannelID => Channel
  channelQueue : List ChannelID
  deriving DecidableEq

namespace ChannelBank

def empty : ChannelBank where
  channels := ∅
  channelQueue := []

def totalSize (bank : ChannelBank) : Uint64 :=
  (bank.channels.entries.map fun entry => entry.2.size).foldl (· + ·) 0

def pruneFrom (channels : AList fun _ : ChannelID => Channel) (totalSize : Uint64) :
    List ChannelID → Except Error ChannelBank
  | [] =>
    if totalSize > maxChannelBankSize then .error .panic
    else .ok { channels, channelQueue := [] }
  | id :: channelQueue =>
    if totalSize > maxChannelBankSize then
      match channels.lookup id with
      | none => .error .panic
      | some ch => pruneFrom (channels.erase id) (totalSize - ch.size) channelQueue
    else .ok { channels, channelQueue := id :: channelQueue }

def prune (bank : ChannelBank) : Except Error ChannelBank :=
  pruneFrom bank.channels bank.totalSize bank.channelQueue

variable (cfg : Config) (origin : L1BlockRef)

def timedOut (ch : Channel) : Bool := ch.openBlock.number + cfg.channelTimeout < origin.number

variable (bank : ChannelBank)

def openChannel (id : ChannelID) : ChannelBank × Channel :=
  match bank.channels.lookup id with
  | some ch => (bank, ch)
  | none =>
    let ch := newChannel id origin
    ({ channels := bank.channels.insert id ch, channelQueue := bank.channelQueue ++ [id] }, ch)

/-- A frame of a channel that is timed out is ignored, and so is one that the channel refuses. -/
def ingestFrame (f : Frame) : ChannelBank :=
  let (bank, currentCh) := bank.openChannel origin f.id
  if timedOut cfg origin currentCh then bank
  else { bank with channels := bank.channels.insert f.id (currentCh.ingest (f, origin)) }

def ingestData (data : Bytes) : Except Error ChannelBank :=
  match bank.prune with
  | .error err => .error err
  | .ok bank =>
    match parseFrames data with
    | .error _ => .ok bank
    | .ok frames => .ok (frames.foldl (ingestFrame cfg origin) bank)

/-- The data of the first channel once it is complete. A channel that is timed out is dropped. -/
def read : ChannelBank × Except Error Bytes :=
  match bank.channelQueue with
  | [] => (bank, .error .eof)
  | first :: rest =>
    match bank.channels.lookup first with
    | none => (bank, .error .panic)
    | some ch =>
      let dropped : ChannelBank := { channels := bank.channels.erase first, channelQueue := rest }
      if timedOut cfg origin ch then (dropped, .error .eof)
      else if ch.isReady then (dropped, ch.reader)
      else (bank, .error .eof)

/-- What the stage before the bank answers is ingested. -/
def ingestNext (prev : Except Error Bytes) : ChannelBank × Except Error Bytes :=
  match prev with
  | .error err => (bank, .error err)
  | .ok data =>
    match bank.ingestData cfg origin data with
    | .error err => (bank, .error err)
    | .ok bank => (bank, .error .notEnoughData)

end ChannelBank

structure L1Stages where
  traversal : L1Traversal
  datas : Option DataSource
  bank : ChannelBank
  nextBatchFn : Option BatchReader
  deriving DecidableEq

structure TxsAnswers where
  opened : TxsByHash
  again : TxsByHash

namespace L1Stages

variable (zlib : Zlib.Codec) (cfg : Config) (inbox : InboxConfig) (txs : TxsAnswers) (s : L1Stages)

def nextOf (datas : DataSource) : L1Stages × Except Error Bytes :=
  match datas.next inbox txs.again with
  | (_, .error .eof) => ({ s with datas := none }, .error .eof)
  | (datas, result) => ({ s with datas := some datas }, result)

def retrieve : L1Stages × Except Error Bytes :=
  match s.datas with
  | some datas => s.nextOf inbox txs datas
  | none =>
    match s.traversal.nextL1Block with
    | (traversal, .error err) => ({ s with traversal }, .error err)
    | (traversal, .ok next) =>
      { s with traversal }.nextOf inbox txs (DataSource.new inbox txs.opened next.id)

def nextData : L1Stages × Except Error Bytes :=
  match s.bank.read cfg s.traversal.block with
  | (bank, .error .eof) =>
    let (s, prev) := { s with bank }.retrieve inbox txs
    let (bank, result) := s.bank.ingestNext cfg s.traversal.block prev
    ({ s with bank }, result)
  | (bank, result) => ({ s with bank }, result)

/-- The next batch of an open channel. After the last one, or a bad one, the channel is closed. -/
def nextBatchOf (r : BatchReader) : L1Stages × Except Error BatchData :=
  match r.next with
  | .error _ => ({ s with nextBatchFn := none }, .error .notEnoughData)
  | .ok (batch, r) => ({ s with nextBatchFn := some r }, .ok batch.batch)

def nextBatch : L1Stages × Except Error BatchData :=
  match s.nextBatchFn with
  | some r => s.nextBatchOf r
  | none =>
    match s.nextData cfg inbox txs with
    | (s, .error err) => (s, .error err)
    | (s, .ok data) =>
      match BatchReader.new zlib data s.traversal.block with
      | .error err => (s, .error (.temporary err))
      | .ok r => s.nextBatchOf r

end L1Stages

end Derive
