import TokamakTitan.Library.Abi
import TokamakTitan.Library.Checked

/-! What the L1 contracts share: the message of a call, the deployment, batch headers
(`Lib_OVMCodec`) and address aliases (`AddressAliasHelper`). -/
namespace Rollup
open Checked Abi

structure Message where
  sender : Address
  origin : Address
  timestamp : Uint256
  number : Uint256
  blockhash : Uint256 → Bytes32
  gasleft : Uint256

structure Deployment where
  resolve : String → Address
  managerOwner : Address
  ctc : Address
  scc : Address

structure ChainBatchHeader where
  batchIndex : Uint256
  batchRoot : Bytes32
  batchSize : Uint256
  prevTotalElements : Uint256
  extraData : Bytes
  deriving DecidableEq

def hashBatchHeader {H : Type} (keccak : Bytes → H) (h : ChainBatchHeader) : H :=
  keccak (encodeBytes [h.batchRoot, h.batchSize, h.prevTotalElements] h.extraData [])

def offset : Address := 0x1111000000000000000000000000000000001111

def applyL1ToL2Alias (l1Address : Address) : Address := l1Address + offset

def undoL1ToL2Alias (l2Address : Address) : Address := l2Address - offset

theorem undoL1ToL2Alias_apply (a : Address) : undoL1ToL2Alias (applyL1ToL2Alias a) = a :=
  BitVec.add_sub_cancel a offset

theorem eq_alias_of_undo {a b : Address} (h : undoL1ToL2Alias a = b) : a = applyL1ToL2Alias b := by
  rw [← h]
  exact (BitVec.sub_add_cancel a offset).symm

theorem applyL1ToL2Alias_inj {a b : Address} (h : applyL1ToL2Alias a = applyL1ToL2Alias b) :
    a = b := by
  rw [← undoL1ToL2Alias_apply a, h, undoL1ToL2Alias_apply]

end Rollup
