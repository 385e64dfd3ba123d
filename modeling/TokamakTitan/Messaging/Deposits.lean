import TokamakTitan.Messaging.Bookkeeping

/-! Messages from L1 to L2: `sendMessage` and `replayMessage` of the L1 messenger, the queue of the
`CanonicalTransactionChain`, and its execution on L2. -/
namespace Messaging
open Checked Abi Rollup CanonicalTransactionChain

/-- A transaction of the queue. The chain stores its hash; the event of `enqueue` has the rest. -/
structure Enqueued where
  sender : Address
  target : Address
  gasLimit : Uint256
  data : Bytes
  deriving DecidableEq

def enqueuedOf : Event → Option Enqueued
  | .transactionEnqueued sender target gasLimit data _ _ => some ⟨sender, target, gasLimit, data⟩
  | _ => none

def enqueuedBy (events : List Event) : List Enqueued := events.filterMap enqueuedOf

section Contract

variable {H : Type} [DecidableEq H] (hash : Hashing H) (messenger : Address)

def Enqueued.transactionHash (tx : Enqueued) : H :=
  hashEnqueued hash.keccak tx.sender tx.target tx.gasLimit tx.data

def L1.sendXDomainMessage (msg : Message) (message : Bytes) (gasLimit : Uint32) (s : State H) :
    Result (State H × List Event) :=
  enqueue hash.keccak {msg with sender := messenger} L2_CROSS_DOMAIN_MESSENGER
    (gasLimit.setWidth 256) message s

/-- The nonce is the length of the queue. The message is what the event `SentMessage` shows. -/
def L1.sendMessage (msg : Message) (target : Address) (message : Bytes) (gasLimit : Uint32)
    (s : State H) : Result (State H × List Event × CrossDomainMessage) := do
  let nonce := s.getQueueLength
  let m : CrossDomainMessage := ⟨target, msg.sender, message, nonce.setWidth 256⟩
  let (s, events) ← sendXDomainMessage hash messenger msg (encodeXDomainCalldata m) gasLimit s
  return (s, events, m)

def L1.replayMessage (msg : Message) (target sender : Address) (message : Bytes)
    (queueIndex : Uint256) (oldGasLimit newGasLimit : Uint32) (s : State H) :
    Result (State H × List Event) := do
  let element ← index s.queueElements queueIndex.toNat
  let xDomainCalldata := encodeXDomainCalldata ⟨target, sender, message, queueIndex⟩
  let transactionHash := hashEnqueued hash.keccak (applyL1ToL2Alias messenger)
    L2_CROSS_DOMAIN_MESSENGER (oldGasLimit.setWidth 256) xDomainCalldata
  require (transactionHash = element.transactionHash) "Provided message has not been enqueued."
  sendXDomainMessage hash messenger msg xDomainCalldata newGasLimit s

structure Send where
  message : CrossDomainMessage
  queueIndex : ℕ
  gasLimit : Uint32
  deriving DecidableEq

def Send.enqueued (e : Send) : Enqueued :=
  ⟨applyL1ToL2Alias messenger, L2_CROSS_DOMAIN_MESSENGER, e.gasLimit.setWidth 256,
    encodeXDomainCalldata e.message⟩

/-- Both chains. `queue` and `sends` record what the events of L1 show; `next` is the first
transaction of the queue not yet executed on L2. -/
structure System (H : Type) where
  ctc : State H
  queue : List Enqueued
  sends : List Send
  l2 : L2.World H
  next : ℕ

def System.init (ctc : State H) : System H := ⟨ctc, [], [], L2.World.init, 0⟩

/-- The effect of a queue transaction on the messenger and the passer of L2. The messenger's own
transactions call `relayMessage`; the code that others run makes calls from callers that satisfy
`Caller`. A transaction that reverts or runs out of gas changes nothing. -/
inductive Executes (Caller : Address → Prop) (tx : Enqueued) : L2.World H → L2.World H → Prop
  | reverted (w : L2.World H) : Executes Caller tx w w
  | relayMessage {w u : L2.World H} (number : Uint256) (m : CrossDomainMessage)
      (call : L2.World H → L2.World H × Bool) (target : tx.target = L2_CROSS_DOMAIN_MESSENGER)
      (decoded : decodeRelayMessage tx.data = some m)
      (inner : m.target ≠ L2_TO_L1_MESSAGE_PASSER →
        ∀ x, L2.Steps hash messenger Caller x (call x).1)
      (ok : L2.relayMessage hash messenger tx.sender number m call w = .ok u) :
      Executes Caller tx w u
  | other {w u : L2.World H}
      (other : tx.target = L2_CROSS_DOMAIN_MESSENGER → decodeRelayMessage tx.data = none)
      (steps : L2.Steps hash messenger Caller w u) : Executes Caller tx w u

/-- A call on L1, the next queue transaction on L2, or calls of the sequencer's transactions on L2.
`Account` holds of the externally owned accounts of L1, whose calls have them as the origin; the
messenger is a contract and never is the origin. -/
inductive System.Step (d : Deployment) (Account Caller : Address → Prop) :
    System H → System H → Prop
  | sendMessage {s : System H} {ctc : State H} {events : List Event} {m : CrossDomainMessage}
      (msg : Message) (target : Address) (message : Bytes) (gasLimit : Uint32)
      (origin : msg.origin ≠ messenger)
      (ok : L1.sendMessage hash messenger msg target message gasLimit s.ctc =
        .ok (ctc, events, m)) :
      Step d Account Caller s {s with
        ctc
        queue := s.queue ++ enqueuedBy events
        sends := s.sends ++ [⟨m, s.ctc.queueElements.length, gasLimit⟩]}
  | replayMessage {s : System H} {ctc : State H} {events : List Event} (msg : Message)
      (target sender : Address) (message : Bytes) (queueIndex : Uint256)
      (oldGasLimit newGasLimit : Uint32) (origin : msg.origin ≠ messenger)
      (ok : L1.replayMessage hash messenger msg target sender message queueIndex oldGasLimit
        newGasLimit s.ctc = .ok (ctc, events)) :
      Step d Account Caller s {s with ctc, queue := s.queue ++ enqueuedBy events}
  | other {s : System H} {ctc : State H} {events : List Event} (tx : Message × Call)
      (other : tx.1.sender ≠ messenger) (account : tx.1.sender = tx.1.origin → Account tx.1.sender)
      (ok : exec hash.keccak d s.ctc tx = .ok (ctc, events)) :
      Step d Account Caller s {s with ctc, queue := s.queue ++ enqueuedBy events}
  | execute {s : System H} {tx : Enqueued} {l2 : L2.World H} (next : s.queue[s.next]? = some tx)
      (executes : Executes hash messenger Caller tx s.l2 l2) :
      Step d Account Caller s {s with l2, next := s.next + 1}
  | sequence {s : System H} {l2 : L2.World H}
      (steps : L2.Steps hash messenger Caller s.l2 l2) : Step d Account Caller s {s with l2}

def System.Reachable (d : Deployment) (Account Caller : Address → Prop) (s : System H) : Prop :=
  ∃ zero maxGas divisor cost, Relation.ReflTransGen (System.Step hash messenger d Account Caller)
      (System.init (State.init zero maxGas divisor cost)) s

end Contract

variable {H : Type} [DecidableEq H] {hash : Hashing H} {messenger : Address} {events : List Event}

omit [DecidableEq H] in
theorem exec_enqueued {d : Deployment} {tx : Message × Call} {s s' : State H}
    (h : exec hash.keccak d s tx = .ok (s', events)) :
    s'.queueElements.map QueueElement.transactionHash =
      s.queueElements.map QueueElement.transactionHash ++
        (enqueuedBy events).map (Enqueued.transactionHash hash) ∧
    ∀ e ∈ enqueuedBy events, e.sender = l2Sender tx.1 := by
  obtain ⟨msg, call⟩ := tx
  cases call with
  | setGasParams =>
    simp only [exec, setGasParams, bind_eq_ok, pure_eq_ok, Prod.mk.injEq] at h
    obtain ⟨-, -, -, -, rfl, rfl⟩ := h
    simp [enqueuedBy, enqueuedOf]
  | enqueue =>
    obtain ⟨rfl, rfl⟩ := enqueue_eq_ok h
    simp [enqueuedBy, enqueuedOf, Enqueued.transactionHash]
  | appendSequencerBatch =>
    obtain ⟨header, start, num, total, rfl, happended⟩ := appendSequencerBatch_eq_ok h
    simp [enqueuedBy, enqueuedOf, happended.queueElements]

omit [DecidableEq H] in
theorem L1.sendXDomainMessage_eq_ok {msg : Message} {message : Bytes} {gasLimit : Uint32}
    {s s' : State H} (horigin : msg.origin ≠ messenger)
    (h : sendXDomainMessage hash messenger msg message gasLimit s = .ok (s', events)) :
    message.length ≤ MAX_ROLLUP_TX_SIZE ∧
    enqueuedBy events = [⟨applyL1ToL2Alias messenger, L2_CROSS_DOMAIN_MESSENGER,
      gasLimit.setWidth 256, message⟩] ∧
    s'.queueElements.map QueueElement.transactionHash =
      s.queueElements.map QueueElement.transactionHash ++
        (enqueuedBy events).map (Enqueued.transactionHash hash) := by
  have hsender : l2Sender {msg with sender := messenger} = applyL1ToL2Alias messenger := by
    simp [l2Sender, horigin.symm]
  have hsize : message.length ≤ MAX_ROLLUP_TX_SIZE := by
    simp only [sendXDomainMessage, enqueue, bind_eq_ok, require_eq_ok] at h
    obtain ⟨-, hsize, -⟩ := h
    exact hsize
  obtain ⟨rfl, rfl⟩ := enqueue_eq_ok h
  simp [enqueuedBy, enqueuedOf, hsender, Enqueued.transactionHash, hsize]

end Messaging
