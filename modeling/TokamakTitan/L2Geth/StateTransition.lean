import TokamakTitan.Library.Abi
import TokamakTitan.Library.Checked

/-! The state transition of l2geth with the OVM enabled: gas is bought, the EVM runs, the rest is
refunded and the fee is paid. Balances are entries of the storage of `OVM_ETH`. -/
namespace L2Geth
open Checked (Address Uint256)
open Abi (Bytes)

inductive QueueOrigin where
  | sequencer
  | l1ToL2
  deriving DecidableEq

structure Message where
  sender : Address
  recipient : Option Address
  gasPrice : ℕ
  gas : BitVec 64
  value : ℕ
  nonce : BitVec 64
  checkNonce : Bool
  data : Bytes
  queueOrigin : QueueOrigin
  deriving DecidableEq

structure StateDB (H : Type) where
  ovmEth : H → Uint256
  nonces : Address → BitVec 64
  refund : BitVec 64

inductive VmError where
  | insufficientBalance
  | other (reason : String)
  deriving DecidableEq

structure Execution (H : Type) where
  ret : Bytes
  gas : BitVec 64
  vmerr : Option VmError
  state : StateDB H

inductive Error where
  | nonceTooHigh
  | nonceTooLow
  | insufficientBalanceForGas
  | gasLimitReached
  | outOfGas
  | insufficientBalance
  | gasPoolOverflow
  deriving DecidableEq

structure Chain (H : Type) where
  keccak : Bytes → H
  coinbase : Address
  isHomestead : Bool
  isIstanbul : Bool
  calculateL1MsgFee : Message → StateDB H → ℕ
  create : Message → BitVec 64 → StateDB H → Execution H
  call : Message → BitVec 64 → StateDB H → Execution H

structure StateTransition (H : Type) where
  gp : BitVec 64
  gas : BitVec 64
  initialGas : BitVec 64
  state : StateDB H
  l1Fee : ℕ

structure Transitioned (H : Type) where
  ret : Bytes
  usedGas : BitVec 64
  failed : Bool
  state : StateDB H
  gp : BitVec 64

def maxUint64 : ℕ := 2 ^ 64 - 1

def intrinsicGas (data : Bytes) (contractCreation isHomestead isEIP2028 : Bool) :
    Except Error (BitVec 64) :=
  let gas := if contractCreation && isHomestead then 53000 else 21000
  if data.length > 0 then
    let nz := data.countP (· ≠ 0)
    let nonZeroGas := if isEIP2028 then 16 else 68
    if (maxUint64 - gas) / nonZeroGas < nz then .error .outOfGas
    else
      let gas := gas + nz * nonZeroGas
      let z := data.length - nz
      if (maxUint64 - gas) / 4 < z then .error .outOfGas
      else .ok (BitVec.ofNat 64 (gas + z * 4))
  else .ok (BitVec.ofNat 64 gas)

/-- The hash of a number: the bytes of its absolute value, cropped from the left. -/
def bigToHash (x : ℤ) : Uint256 := BitVec.ofNat 256 x.natAbs

variable {H : Type} [DecidableEq H] (chain : Chain H) (msg : Message) (a : Address)

/-- The slot of a balance: that of an entry of the mapping at position zero. -/
def getOVMBalanceKey : H :=
  chain.keccak (Abi.word (a.setWidth 256) ++ Abi.word 0)

def getBalance (s : StateDB H) (a : Address) : ℕ := (s.ovmEth (getOVMBalanceKey chain a)).toNat

def addBalance (amount : ℕ) (s : StateDB H) : StateDB H :=
  {s with ovmEth := Function.update s.ovmEth (getOVMBalanceKey chain a)
            (bigToHash (getBalance chain s a + amount))}

def subBalance (amount : ℕ) (s : StateDB H) : StateDB H :=
  {s with ovmEth := Function.update s.ovmEth (getOVMBalanceKey chain a)
            (bigToHash (getBalance chain s a - amount))}

variable (gp : BitVec 64) (state : StateDB H)

/-- The L1 fee is computed from the state before the transition, unless the gas is free. -/
def newStateTransition : StateTransition H where
  gp
  gas := 0
  initialGas := 0
  state
  l1Fee := if msg.gasPrice ≠ 0 then chain.calculateL1MsgFee msg state else 0

def useGas (amount : BitVec 64) (st : StateTransition H) : Except Error (StateTransition H) :=
  if st.gas < amount then .error .outOfGas else .ok {st with gas := st.gas - amount}

variable (st : StateTransition H)

def buyGas : Except Error (StateTransition H) :=
  let mgval := msg.gas.toNat * msg.gasPrice
  -- Only transactions of the sequencer are charged the L1 fee.
  let mgval := if msg.queueOrigin = .sequencer then mgval + st.l1Fee else mgval
  if getBalance chain st.state msg.sender < mgval then .error .insufficientBalanceForGas
  else if st.gp < msg.gas then .error .gasLimitReached
  else .ok {st with
    gp := st.gp - msg.gas
    gas := st.gas + msg.gas
    initialGas := msg.gas
    state := subBalance chain msg.sender mgval st.state}

def preCheck : Except Error (StateTransition H) :=
  if msg.checkNonce = true ∧ msg.queueOrigin ≠ .l1ToL2 then
    let nonce := st.state.nonces msg.sender
    if nonce < msg.nonce then .error .nonceTooHigh
    else if nonce > msg.nonce then .error .nonceTooLow
    else buyGas chain msg st
  else buyGas chain msg st

def prepare : Except Error (StateTransition H) := do
  let st ← preCheck chain msg (newStateTransition chain msg gp state)
  let gas ← intrinsicGas msg.data msg.recipient.isNone chain.isHomestead chain.isIstanbul
  useGas gas st

def execute : Execution H :=
  match msg.recipient with
  | none => chain.create msg st.gas st.state
  | some _ =>
    let nonce := st.state.nonces msg.sender + 1
    chain.call msg st.gas {st.state with nonces := Function.update st.state.nonces msg.sender nonce}

def StateTransition.gasUsed {H : Type} (st : StateTransition H) : BitVec 64 :=
  st.initialGas - st.gas

def StateTransition.refund {H : Type} (st : StateTransition H) : BitVec 64 :=
  let refund := st.gasUsed / 2
  if refund > st.state.refund then st.state.refund else refund

def addGas (gp amount : BitVec 64) : Except Error (BitVec 64) :=
  if gp.toNat > maxUint64 - amount.toNat then .error .gasPoolOverflow else .ok (gp + amount)

def refundGas : Except Error (StateTransition H) := do
  let gas := st.gas + st.refund
  let remaining := gas.toNat * msg.gasPrice
  let gp ← addGas st.gp gas
  return {st with
    gp
    gas
    state := addBalance chain msg.sender remaining st.state}

def StateTransition.fee {H : Type} (st : StateTransition H) (msg : Message) : ℕ :=
  st.l1Fee + st.gasUsed.toNat * msg.gasPrice

def settle (e : Execution H) : Except Error (Transitioned H) := do
  let st ← refundGas chain msg {st with gas := e.gas, state := e.state}
  return {
    ret := e.ret
    usedGas := st.gasUsed
    failed := e.vmerr.isSome
    state := addBalance chain chain.coinbase (st.fee msg) st.state
    gp := st.gp }

def transitionDb : Except Error (Transitioned H) := do
  let st ← prepare chain msg gp state
  let e := execute chain msg st
  if e.vmerr = some .insufficientBalance then .error .insufficientBalance
  else settle chain msg st e

end L2Geth
