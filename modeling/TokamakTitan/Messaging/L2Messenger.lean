import TokamakTitan.Rollup.Base
import TokamakTitan.Messaging.Codec

/-! `L2CrossDomainMessenger` and `OVM_L2ToL1MessagePasser`. The target of a relayed message is
arbitrary code: a function of the world at the call, whose only means are further calls to the two
contracts. -/
namespace Messaging
open Checked Abi Rollup

structure Execution where
  message : CrossDomainMessage
  success : Bool
  deriving DecidableEq

namespace L2

/-- The storage of the two contracts; the passer's is kept by slot. The last two fields record the
messages sent and the target calls made. -/
structure World (H : Type) where
  relayedMessages : H → Bool
  successfulMessages : H → Bool
  sentMessages : H → Bool
  messageNonce : Uint256
  xDomainMsgSender : Address
  passer : H → Bool
  sent : List CrossDomainMessage
  executed : List Execution

section Contract

variable {H : Type} [DecidableEq H] (hash : Hashing H)

def World.init : World H :=
  ⟨fun _ => false, fun _ => false, fun _ => false, 0, DEFAULT_XDOMAIN_SENDER, fun _ => false,
    [], []⟩

def passMessageToL1 (sender : Address) (message : Bytes) (w : World H) : World H :=
  {w with passer :=
    Function.update w.passer (mappingSlot hash (sentMessageKey hash message sender)) true}

def sendMessage (sender target : Address) (message : Bytes) (w : World H) : Result (World H) := do
  let m : CrossDomainMessage := ⟨target, sender, message, w.messageNonce⟩
  let xDomainCalldata := encodeXDomainCalldata m
  let w := {w with
    sentMessages := Function.update w.sentMessages (hash.keccak xDomainCalldata) true}
  let w := passMessageToL1 hash L2_CROSS_DOMAIN_MESSENGER xDomainCalldata w
  let nonce ← add w.messageNonce 1#256
  return {w with
    messageNonce := nonce
    sent := w.sent ++ [m]}

/-- The call of the target and the bookkeeping after it. A call that fails is rolled back. -/
def callTarget (sender : Address) (number : Uint256) (m : CrossDomainMessage)
    (call : World H → World H × Bool) (w : World H) : World H :=
  let w : World H := {w with xDomainMsgSender := m.sender}
  let (after, success) := call w
  let w : World H := if success then after else w
  let w : World H := {w with
    xDomainMsgSender := DEFAULT_XDOMAIN_SENDER
    executed := w.executed ++ [⟨m, success⟩]}
  let w : World H := if success then
      {w with successfulMessages :=
        Function.update w.successfulMessages (xDomainCalldataHash hash m) true}
    else w
  {w with relayedMessages := Function.update w.relayedMessages (relayId hash m sender number) true}

def relayMessage (l1CrossDomainMessenger sender : Address) (number : Uint256)
    (m : CrossDomainMessage) (call : World H → World H × Bool) (w : World H) :
    Result (World H) := do
  require (undoL1ToL2Alias sender = l1CrossDomainMessenger)
    "Provided message could not be verified."
  require (w.successfulMessages (xDomainCalldataHash hash m) = false)
    "Provided message has already been received."
  if m.target = L2_TO_L1_MESSAGE_PASSER then
    return {w with successfulMessages :=
      Function.update w.successfulMessages (xDomainCalldataHash hash m) true}
  else
    return callTarget hash sender number m call w

/-- Finitely many calls, nested at any depth, by callers that satisfy `Caller`. Calls that revert
leave no trace. The passer sees the messenger as its caller only from the messenger's own code, so a
call that the messenger itself would make to the passer is left unconstrained. -/
inductive Steps (l1CrossDomainMessenger : Address) (Caller : Address → Prop) :
    World H → World H → Prop
  | refl (w : World H) : Steps l1CrossDomainMessenger Caller w w
  | passMessageToL1 {w v : World H} (sender : Address) (message : Bytes)
      (before : Steps l1CrossDomainMessenger Caller w v) (caller : Caller sender)
      (other : sender ≠ L2_CROSS_DOMAIN_MESSENGER) :
      Steps l1CrossDomainMessenger Caller w (passMessageToL1 hash sender message v)
  | sendMessage {w v u : World H} (sender target : Address) (message : Bytes)
      (before : Steps l1CrossDomainMessenger Caller w v) (caller : Caller sender)
      (ok : sendMessage hash sender target message v = .ok u) :
      Steps l1CrossDomainMessenger Caller w u
  | relayMessage {w v u : World H} (sender : Address) (number : Uint256) (m : CrossDomainMessage)
      (call : World H → World H × Bool) (before : Steps l1CrossDomainMessenger Caller w v)
      (caller : Caller sender)
      (inner : m.target ≠ L2_TO_L1_MESSAGE_PASSER →
        ∀ x, Steps l1CrossDomainMessenger Caller x (call x).1)
      (ok : relayMessage hash l1CrossDomainMessenger sender number m call v = .ok u) :
      Steps l1CrossDomainMessenger Caller w u

end Contract

variable {H : Type} [DecidableEq H] {hash : Hashing H} {l1CrossDomainMessenger : Address}
  {w u : World H} {sender : Address}

theorem sendMessage_eq_ok {target : Address} {message : Bytes}
    (h : sendMessage hash sender target message w = .ok u) :
    w.messageNonce.toNat + 1 = u.messageNonce.toNat ∧
    u = {w with
      messageNonce := u.messageNonce
      sentMessages := Function.update w.sentMessages
        (xDomainCalldataHash hash ⟨target, sender, message, w.messageNonce⟩) true
      passer := Function.update w.passer (mappingSlot hash (sentMessageKey hash
        (encodeXDomainCalldata ⟨target, sender, message, w.messageNonce⟩)
        L2_CROSS_DOMAIN_MESSENGER)) true
      sent := w.sent ++ [⟨target, sender, message, w.messageNonce⟩]} := by
  simp only [sendMessage, bind_eq_ok, add_eq_ok, pure_eq_ok] at h
  obtain ⟨nonce, hnonce, rfl⟩ := h
  exact ⟨hnonce, rfl⟩

variable {m : CrossDomainMessage} {number : Uint256} {call : World H → World H × Bool}

theorem relayMessage_eq_ok
    (h : relayMessage hash l1CrossDomainMessenger sender number m call w = .ok u) :
    undoL1ToL2Alias sender = l1CrossDomainMessenger ∧
    w.successfulMessages (xDomainCalldataHash hash m) = false ∧
    ((m.target = L2_TO_L1_MESSAGE_PASSER ∧
      u = {w with successfulMessages :=
        Function.update w.successfulMessages (xDomainCalldataHash hash m) true}) ∨
    (m.target ≠ L2_TO_L1_MESSAGE_PASSER ∧ u = callTarget hash sender number m call w)) := by
  simp only [relayMessage, bind_eq_ok, require_eq_ok] at h
  obtain ⟨-, halias, -, hnew, h⟩ := h
  refine ⟨halias, hnew, ?_⟩
  split at h
  next htarget => exact .inl ⟨htarget, (pure_eq_ok.mp h).symm⟩
  next htarget => exact .inr ⟨htarget, (pure_eq_ok.mp h).symm⟩

theorem relayMessage_ok (halias : undoL1ToL2Alias sender = l1CrossDomainMessenger)
    (hfresh : w.successfulMessages (xDomainCalldataHash hash m) = false)
    (htarget : m.target ≠ L2_TO_L1_MESSAGE_PASSER) :
    relayMessage hash l1CrossDomainMessenger sender number m call w =
      .ok (callTarget hash sender number m call w) := by
  simp only [relayMessage, bind_eq_ok, require_eq_ok, if_neg htarget]
  exact ⟨(), halias, (), hfresh, rfl⟩

def World.during (w : World H) (m : CrossDomainMessage) : World H :=
  {w with xDomainMsgSender := m.sender}

def World.after (w : World H) (m : CrossDomainMessage) (call : World H → World H × Bool) :
    World H :=
  if (call (w.during m)).2 then (call (w.during m)).1 else w.during m

omit [DecidableEq H] in
theorem World.after_cases {P : World H → Prop} (hfail : P (w.during m))
    (hok : P (call (w.during m)).1) : P (w.after m call) := by
  unfold World.after
  split
  · exact hok
  · exact hfail

theorem callTarget_eq (sender : Address) (number : Uint256) (m : CrossDomainMessage)
    (call : World H → World H × Bool) (w : World H) :
    callTarget hash sender number m call w = {w.after m call with
      xDomainMsgSender := DEFAULT_XDOMAIN_SENDER
      executed := (w.after m call).executed ++ [⟨m, (call (w.during m)).2⟩]
      successfulMessages :=
        if (call (w.during m)).2 then
          Function.update (w.after m call).successfulMessages (xDomainCalldataHash hash m) true
        else (w.after m call).successfulMessages
      relayedMessages :=
        Function.update (w.after m call).relayedMessages (relayId hash m sender number) true} := by
  cases hcall : call (w.during m) with
  | mk after success =>
    have hcall' : call {w with xDomainMsgSender := m.sender} = (after, success) := hcall
    cases success <;> simp [callTarget, World.after, hcall', World.during]

end L2

end Messaging
