import TokamakTitan.Library.Zlib
import TokamakTitan.Derive.Attributes
import TokamakTitan.Derive.BatchCodec
import TokamakTitan.Derive.Frame

/-! The batch submitter turns L2 blocks into batches, and cuts the compressed batches into frames.
-/
namespace Derive

/-- A call of the batch submitter fails with a message, at the end of the data, or by a crash. -/
inductive ChannelOutError where
  | failed (err : String)
  | eof
  | panic
  deriving DecidableEq

/-- The transactions of a block that are not deposits, and the L1 origin from the first deposit. -/
def blockToBatch (codec : TxCodec) (block : ExecutionPayload) : Except ChannelOutError BatchData :=
  match block.transactions with
  | [] => .error .panic
  | l1InfoTx :: _ =>
    match codec.unmarshalBinary l1InfoTx with
    | .error err => .error (.failed err)
    | .ok tx =>
      if tx.type ≠ depositTxType then
        .error (.failed "first transaction in block is not a deposit tx")
      else match l1InfoDepositTxData tx.data with
        | .error err => .error (.failed err)
        | .ok l1Info =>
          .ok {
            parentHash := block.parentHash
            epochNum := l1Info.number
            epochHash := l1Info.blockHash
            timestamp := block.timestamp
            transactions := block.transactions.filter fun tx => !isDeposit tx }

variable {block : ExecutionPayload} {codec : TxCodec}

theorem blockToBatch_eq_ok {keccak : Bytes → Hash} {seqNumber : Uint64} {info : BlockInfo}
    {l1InfoTx : Bytes} {rest : List Bytes}
    (hinfo : l1InfoDepositBytes keccak codec seqNumber info = .ok l1InfoTx)
    (htxs : block.transactions = l1InfoTx :: rest) :
    blockToBatch codec block = .ok {
      parentHash := block.parentHash
      epochNum := info.number
      epochHash := info.hash
      timestamp := block.timestamp
      transactions := block.transactions.filter fun tx => !isDeposit tx } := by
  have hread := codec.unmarshal_marshal (l1InfoDepositBytes_eq_ok.mp hinfo)
  unfold blockToBatch
  rw [htxs]
  simp only [hread, l1InfoDepositTxData_l1InfoDeposit, ne_eq, not_true_eq_false, if_false]

def StartsWithInfo (codec : TxCodec) (block : ExecutionPayload) : Prop :=
  ∃ l1InfoTx rest tx l1Info, block.transactions = l1InfoTx :: rest ∧
    codec.unmarshalBinary l1InfoTx = .ok tx ∧ tx.type = depositTxType ∧
    l1InfoDepositTxData tx.data = .ok l1Info

theorem StartsWithInfo.blockToBatch (h : StartsWithInfo codec block) :
    ∃ batch, blockToBatch codec block = .ok batch := by
  obtain ⟨l1InfoTx, rest, tx, l1Info, htxs, hread, htype, hinfo⟩ := h
  unfold Derive.blockToBatch
  rw [htxs]
  simp [hread, htype, hinfo]

/-- A channel under construction: the compressor, and its output that is not in a frame yet. -/
structure ChannelOut (zlib : Zlib.Codec) where
  id : ChannelID
  frame : Uint64
  compress : zlib.Writer
  buf : Bytes
  closed : Bool

def newChannelOut (zlib : Zlib.Codec) (id : ChannelID) : ChannelOut zlib where
  id
  frame := 0
  compress := zlib.newWriter
  buf := []
  closed := false

inductive ChannelOutCall where
  | addBlock (block : ExecutionPayload)
  | flush
  | outputFrame (maxSize : Uint64)

def ChannelOutCall.block? : ChannelOutCall → Option ExecutionPayload
  | .addBlock block => some block
  | .flush => none
  | .outputFrame _ => none

namespace ChannelOut

variable {zlib : Zlib.Codec}

def addBlock (codec : TxCodec) (co : ChannelOut zlib) (block : ExecutionPayload) :
    Except ChannelOutError (ChannelOut zlib) :=
  if co.closed then .error (.failed "already closed")
  else match blockToBatch codec block with
    | .error err => .error err
    | .ok batch =>
      let written := zlib.write co.compress batch.encodeRLP
      .ok { co with compress := written.1, buf := co.buf ++ written.2 }

variable (co : ChannelOut zlib)

def flush : Except ChannelOutError (ChannelOut zlib) :=
  if co.closed then .error (.failed "flate: closed writer")
  else
    let written := zlib.flush co.compress
    .ok { co with compress := written.1, buf := co.buf ++ written.2 }

def close : Except ChannelOutError (ChannelOut zlib) :=
  if co.closed then .error (.failed "already closed")
  else .ok { co with closed := true, buf := co.buf ++ zlib.close co.compress }

/-- The frame that is put out. A closed channel ends when there is room for more than what is
left. -/
def nextFrame (maxSize : Uint64) : Frame :=
  let maxDataSize := maxSize - 47 - 1
  let isLast := co.closed && decide (co.buf.length < maxDataSize.toNat)
  { id := co.id
    frameNumber := co.frame.setWidth 16
    data := co.buf.take maxDataSize.toNat
    isLast }

/-- The channel after a frame, the bytes of the frame, and the error that is returned with them. -/
def outputFrame (maxSize : Uint64) : ChannelOut zlib × Bytes × Option ChannelOutError :=
  let f := co.nextFrame maxSize
  ({ co with frame := co.frame + 1, buf := co.buf.drop f.data.length }, f.marshalBinary,
    if f.isLast then some .eof else none)

def call (codec : TxCodec) (co : ChannelOut zlib) :
    ChannelOutCall → Except ChannelOutError (ChannelOut zlib × List Bytes)
  | .addBlock block => (co.addBlock codec block).map fun next => (next, [])
  | .flush => co.flush.map fun next => (next, [])
  | .outputFrame maxSize =>
    match co.outputFrame maxSize with
    | (next, out, none) => .ok (next, [out])
    | (_, _, some err) => .error err

def run (codec : TxCodec) : List ChannelOutCall → ChannelOut zlib →
    Except ChannelOutError (ChannelOut zlib × List Bytes)
  | [], co => .ok (co, [])
  | c :: calls, co => do
    let (co, out) ← co.call codec c
    let (co, outs) ← run codec calls co
    return (co, out ++ outs)

def drain : List Uint64 → ChannelOut zlib → List Bytes × Option ChannelOutError
  | [], _ => ([], none)
  | maxSize :: sizes, co =>
    match co.outputFrame maxSize with
    | (_, out, some err) => ([out], some err)
    | (next, out, none) => (out :: (drain sizes next).1, (drain sizes next).2)

end ChannelOut

/-- A channel from its creation to the end of its frames: calls, the closing, and the frames that
follow. -/
def channelSession (zlib : Zlib.Codec) (codec : TxCodec) (id : ChannelID)
    (calls : List ChannelOutCall) (sizes : List Uint64) :
    Except ChannelOutError (List Bytes × Option ChannelOutError) := do
  let (co, outs) ← ChannelOut.run codec calls (newChannelOut zlib id)
  let co ← co.close
  return (outs ++ (ChannelOut.drain sizes co).1, (ChannelOut.drain sizes co).2)

end Derive
