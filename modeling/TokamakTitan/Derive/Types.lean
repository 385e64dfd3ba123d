import TokamakTitan.Library.BigEndian
import TokamakTitan.Library.Checked

/-! Blocks, payloads and transactions that the rollup node derives L2 from L1 with. -/
namespace Derive

abbrev Bytes := List UInt8

abbrev Uint64 := BitVec 64

abbrev Hash := BitVec 256

abbrev Address := BitVec 160

structure BlockID where
  hash : Hash
  number : Uint64
  deriving DecidableEq

structure L1BlockRef where
  hash : Hash
  number : Uint64
  parentHash : Hash
  time : Uint64
  deriving DecidableEq

def L1BlockRef.zero : L1BlockRef where
  hash := 0
  number := 0
  parentHash := 0
  time := 0

structure L2BlockRef where
  hash : Hash
  number : Uint64
  parentHash : Hash
  time : Uint64
  l1Origin : BlockID
  sequenceNumber : Uint64
  deriving DecidableEq

structure BlockInfo where
  hash : Hash
  parentHash : Hash
  number : Uint64
  time : Uint64
  mixDigest : Hash
  baseFee : BitVec 256
  deriving DecidableEq

def BlockInfo.id (info : BlockInfo) : BlockID := { hash := info.hash, number := info.number }

def BlockInfo.ref (info : BlockInfo) : L1BlockRef where
  hash := info.hash
  number := info.number
  parentHash := info.parentHash
  time := info.time

structure Genesis where
  l1 : BlockID
  l2 : BlockID
  deriving DecidableEq

structure Config where
  genesis : Genesis
  blockTime : Uint64
  maxSequencerDrift : Uint64
  seqWindowSize : Uint64
  channelTimeout : Uint64
  feeRecipientAddress : Address
  depositContractAddress : Address
  deriving DecidableEq

/-- The parameters of a development network. -/
def devnetConfig : Config where
  genesis := ⟨⟨0xa0, 90⟩, ⟨0xc0, 0⟩⟩
  blockTime := 2
  maxSequencerDrift := 600
  seqWindowSize := 3600
  channelTimeout := 300
  feeRecipientAddress := 0x4200000000000000000000000000000000000011
  depositContractAddress := 0x6900000000000000000000000000000000000001

/-- A block of an L1 chain whose hashes are the numbers of its blocks. -/
def numberedBlock (number : Uint64) : L1BlockRef :=
  ⟨number.setWidth 256, number, (number - 1).setWidth 256, 12 * number⟩

structure PayloadAttributes where
  timestamp : Uint64
  prevRandao : Hash
  suggestedFeeRecipient : Address
  transactions : List Bytes
  noTxPool : Bool
  deriving DecidableEq

structure ExecutionPayload where
  parentHash : Hash
  feeRecipient : Address
  prevRandao : Hash
  blockNumber : Uint64
  gasLimit : Uint64
  timestamp : Uint64
  extraData : Bytes
  blockHash : Hash
  transactions : List Bytes
  deriving DecidableEq

structure BatchData where
  parentHash : Hash
  epochNum : Uint64
  epochHash : Hash
  timestamp : Uint64
  transactions : List Bytes
  deriving DecidableEq

def BatchData.epoch (batch : BatchData) : BlockID :=
  { hash := batch.epochHash, number := batch.epochNum }

structure BatchWithL1InclusionBlock where
  l1InclusionBlock : L1BlockRef
  batch : BatchData
  deriving DecidableEq

inductive Error where
  | eof
  | notEnoughData
  | temporary (message : String)
  | reset (message : String)
  | critical (message : String)
  | panic
  deriving DecidableEq

/-- A deposit transaction. A creation has no recipient, and a mint of zero is absent. -/
structure DepositTx where
  sourceHash : Hash
  sender : Address
  recipient : Option Address
  mint : Option ℕ
  value : ℕ
  gas : Uint64
  isSystemTransaction : Bool
  data : Bytes
  deriving DecidableEq

def depositTxType : UInt8 := 0x7e

structure Transaction where
  type : UInt8
  data : Bytes
  deriving DecidableEq

structure TxCodec where
  marshalBinary : DepositTx → Except String Bytes
  unmarshalBinary : Bytes → Except String Transaction
  marshal_cons : ∀ {tx b}, marshalBinary tx = .ok b → ∃ rest, b = depositTxType :: rest
  unmarshal_marshal : ∀ {tx b}, marshalBinary tx = .ok b →
    unmarshalBinary b = .ok { type := depositTxType, data := tx.data }

def isDeposit (tx : Bytes) : Bool := tx.head? = some depositTxType

end Derive
