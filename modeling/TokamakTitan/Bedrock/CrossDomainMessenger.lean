import TokamakTitan.Library.CallStack
import TokamakTitan.Messaging.Codec
import TokamakTitan.Rollup.Base

/-! The messengers after the Bedrock upgrade: `CrossDomainMessenger`, and what its children on L1
and on L2 add to it. -/
namespace Bedrock
open Checked
open Abi (Bytes encodeBytes)
open Messaging (DEFAULT_XDOMAIN_SENDER L2_CROSS_DOMAIN_MESSENGER)

def MESSAGE_VERSION : BitVec 16 := 1

def MIN_GAS_CONSTANT_OVERHEAD : Uint32 := 200000

def MIN_GAS_DYNAMIC_OVERHEAD_NUMERATOR : Uint32 := 1016

def MIN_GAS_DYNAMIC_OVERHEAD_DENOMINATOR : Uint32 := 1000

def MIN_GAS_CALLDATA_OVERHEAD : Uint32 := 16

def RELAY_GAS_REQUIRED : Uint256 := 45000

def RELAY_GAS_BUFFER : Uint256 := RELAY_GAS_REQUIRED - 5000

structure Message where
  nonce : Uint256
  sender : Address
  target : Address
  value : Uint256
  minGasLimit : Uint256
  message : Bytes
  deriving DecidableEq

structure Env where
  sender : Address
  value : Uint256
  l2Sender : Address
  deriving DecidableEq

structure Child where
  address : Address
  otherMessenger : Address
  isOtherMessenger : Env → Bool
  isUnsafeTarget : Address → Bool
  self_unsafe : isUnsafeTarget address = true

def l1CrossDomainMessenger (address portal : Address) : Child where
  address
  otherMessenger := L2_CROSS_DOMAIN_MESSENGER
  isOtherMessenger env := env.sender = portal ∧ env.l2Sender = L2_CROSS_DOMAIN_MESSENGER
  isUnsafeTarget target := target = address ∨ target = portal
  self_unsafe := by simp

structure Outgoing where
  recipient : Address
  gasLimit : BitVec 64
  value : Uint256
  data : Bytes
  deriving DecidableEq

/-- A messenger and its ETH. The lists are not part of the state: they record the messages sent, and
those whose relay came from the other messenger, failed, and succeeded. -/
structure Messenger (H : Type) where
  owner : Address
  paused : Bool
  entered : Bool
  successfulMessages : H → Bool
  xDomainMsgSender : Address
  msgNonce : BitVec 240
  receivedMessages : H → Bool
  balance : ℕ
  sent : List Outgoing
  delivered : List Message
  failed : List Message
  succeeded : List Message

/-- The selector of `relayMessage(uint256,address,address,uint256,uint256,bytes)`. -/
def relayMessageSelector : Bytes := [0xd7, 0x64, 0xad, 0x0b]

def encodeCrossDomainMessageV1 (m : Message) : Bytes :=
  relayMessageSelector ++ encodeBytes [m.nonce, m.sender.setWidth 256, m.target.setWidth 256,
    m.value, m.minGasLimit] m.message []

def encodeVersionedNonce (nonce : BitVec 240) (version : BitVec 16) : Uint256 :=
  (version.setWidth 256 <<< 240) ||| nonce.setWidth 256

def decodeVersionedNonce (nonce : Uint256) : BitVec 240 × BitVec 16 :=
  (nonce.setWidth 240, (nonce >>> 240).setWidth 16)

def baseGas (message : Bytes) (minGasLimit : Uint32) : Result Uint32 := do
  let scaled ← mul minGasLimit MIN_GAS_DYNAMIC_OVERHEAD_NUMERATOR
  let dynamicOverhead ← div scaled MIN_GAS_DYNAMIC_OVERHEAD_DENOMINATOR
  let calldataOverhead ← mul (BitVec.ofNat 32 message.length) MIN_GAS_CALLDATA_OVERHEAD
  let overhead ← add dynamicOverhead calldataOverhead
  add overhead MIN_GAS_CONSTANT_OVERHEAD

variable {H : Type} [DecidableEq H] (c : Child) (keccak : Bytes → H)

def hashCrossDomainMessageV1 (m : Message) : H := keccak (encodeCrossDomainMessageV1 m)

variable (env : Env) (w : Messenger H)

def onlyOwner : Result Unit :=
  require (w.owner = env.sender) "Ownable: caller is not the owner"

def pause : Result (Messenger H) := do
  onlyOwner env w
  require (w.paused = false) "Pausable: paused"
  return {w with paused := true}

def unpause : Result (Messenger H) := do
  onlyOwner env w
  require (w.paused = true) "Pausable: not paused"
  return {w with paused := false}

def transferOwnership (newOwner : Address) (w : Messenger H) : Result (Messenger H) := do
  onlyOwner env w
  require (newOwner ≠ 0) "Ownable: new owner is the zero address"
  return {w with owner := newOwner}

def renounceOwnership : Result (Messenger H) := do
  onlyOwner env w
  return {w with owner := 0}

def messageNonce : Uint256 := encodeVersionedNonce w.msgNonce MESSAGE_VERSION

def sendMessage (target : Address) (message : Bytes) (minGasLimit : Uint32) (w : Messenger H) :
    Result (Messenger H) := do
  let gasLimit ← baseGas message minGasLimit
  let m : Message := {
    nonce := messageNonce w
    sender := env.sender
    target
    value := env.value
    minGasLimit := minGasLimit.setWidth 256
    message }
  return {w with
    balance := w.balance + env.value.toNat - env.value.toNat
    sent := w.sent ++ [⟨c.otherMessenger, gasLimit.setWidth 64, env.value,
      encodeCrossDomainMessageV1 m⟩]
    msgNonce := w.msgNonce + 1}

/-- The conditions under which a message may be relayed, apart from gas and target. -/
def checkOrigin (m : Message) (w : Messenger H) : Result Unit :=
  if c.isOtherMessenger env then
    assert (env.value = m.value)
  else do
    require (env.value = 0)
      "CrossDomainMessenger: value must be zero unless message is from a system address"
    require (w.receivedMessages (hashCrossDomainMessageV1 keccak m) = true)
      "CrossDomainMessenger: message cannot be replayed"

/-- `relayMessage` up to the call of the target, with the gas that the call asks for. The gas left
is read twice, at the check and for the call. -/
def relayMessage (gasleft gasleftAtCall : Uint256) (m : Message) (w : Messenger H) :
    Result (Messenger H × Uint256) := do
  require (w.entered = false) "ReentrancyGuard: reentrant call"
  require (w.paused = false) "Pausable: paused"
  require ((decodeVersionedNonce m.nonce).2 = 1)
    "CrossDomainMessenger: only version 1 messages are supported after the Bedrock upgrade"
  checkOrigin c keccak env m w
  require (c.isUnsafeTarget m.target = false)
    "CrossDomainMessenger: cannot send message to blocked system address"
  require (w.successfulMessages (hashCrossDomainMessageV1 keccak m) = false)
    "CrossDomainMessenger: message has already been relayed"
  let required ← add m.minGasLimit RELAY_GAS_REQUIRED
  require (gasleft ≥ required) "CrossDomainMessenger: insufficient gas to relay message"
  let gas ← sub gasleftAtCall RELAY_GAS_BUFFER
  return ({w with
    entered := true
    xDomainMsgSender := m.sender
    balance := w.balance + env.value.toNat
    delivered := if c.isOtherMessenger env then w.delivered ++ [m] else w.delivered}, gas)

def finishRelay (m : Message) (success : Bool) (w : Messenger H) : Messenger H :=
  let versionedHash := hashCrossDomainMessageV1 keccak m
  if success then
    {w with
      entered := false
      xDomainMsgSender := DEFAULT_XDOMAIN_SENDER
      successfulMessages := Function.update w.successfulMessages versionedHash true
      succeeded := w.succeeded ++ [m]}
  else
    {w with
      entered := false
      xDomainMsgSender := DEFAULT_XDOMAIN_SENDER
      receivedMessages := Function.update w.receivedMessages versionedHash true
      failed := w.failed ++ [m]}

def Forced (w w' : Messenger H) : Prop := ∃ amount : ℕ, w' = {w with balance := w.balance + amount}

/-- The calls that return at once. A relay is one of them if the messenger cannot pay the value of
the message: the call of the target then fails. -/
inductive Act : Messenger H → Messenger H → Prop
  | forced {w w' : Messenger H} (h : Forced w w') : Act w w'
  | pause {w w' : Messenger H} (env : Env) (h : pause env w = .ok w') : Act w w'
  | unpause {w w' : Messenger H} (env : Env) (h : unpause env w = .ok w') : Act w w'
  | transferOwnership {w w' : Messenger H} (env : Env) (newOwner : Address)
      (h : transferOwnership env newOwner w = .ok w') : Act w w'
  | renounceOwnership {w w' : Messenger H} (env : Env) (h : renounceOwnership env w = .ok w') :
      Act w w'
  | sendMessage {w w' : Messenger H} (env : Env) (target : Address) (message : Bytes)
      (minGasLimit : Uint32) (h : sendMessage c env target message minGasLimit w = .ok w') :
      Act w w'
  | unpaid {w atCall : Messenger H} (env : Env) (gasleft gasleftAtCall : Uint256) (m : Message)
      (gas : Uint256) (h : relayMessage c keccak env gasleft gasleftAtCall m w = .ok (atCall, gas))
      (hvalue : atCall.balance < m.value.toNat) : Act w (finishRelay keccak m false atCall)

/-- The messenger among arbitrary code. A relay waits while the target of its message runs. -/
def messengerContract : CallStack.Contract (Messenger H) Message where
  idle := Forced
  act := Act c keccak
  call m w atCall w' := ∃ env gasleft gasleftAtCall gas,
    relayMessage c keccak env gasleft gasleftAtCall m w = .ok (atCall, gas) ∧
      m.value.toNat ≤ atCall.balance ∧ w' = {atCall with balance := atCall.balance - m.value.toNat}
  ret m success w w' := w' = finishRelay keccak m success w

structure Fresh (w : Messenger H) : Prop where
  entered : w.entered = false
  successfulMessages : w.successfulMessages = fun _ => false
  receivedMessages : w.receivedMessages = fun _ => false
  xDomainMsgSender : w.xDomainMsgSender = DEFAULT_XDOMAIN_SENDER
  succeeded : w.succeeded = []

def Messenger.Pending (m : Message) : Prop :=
  w.receivedMessages (hashCrossDomainMessageV1 keccak m) = true ∧
    w.successfulMessages (hashCrossDomainMessageV1 keccak m) = false

end Bedrock
