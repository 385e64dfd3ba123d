import TokamakTitan.Rollup.StateCommitmentChain
import TokamakTitan.Messaging.L2Messenger

/-! `L1CrossDomainMessenger` and `L1CrossDomainMessengerFast`: relaying messages from L2. What the
two variants do differently is a parameter. -/
namespace Messaging
open Checked Abi Rollup

namespace L1

/-- The storage of the messenger. The last field is not part of it: it records the target calls that
were not reverted. -/
structure World (H : Type) where
  blockedMessages : H → Bool
  relayedMessages : H → Bool
  successfulMessages : H → Bool
  failedMessages : H → Bool
  xDomainMsgSender : Address
  paused : Bool
  entered : Bool
  executed : List Execution

structure L2MessageInclusionProof where
  stateRoot : Bytes32
  stateRootBatchHeader : ChainBatchHeader
  stateRootProof : StateCommitmentChain.ChainInclusionProof
  stateTrieWitness : Bytes
  storageTrieWitness : Bytes

/-- What a relay calls in other contracts and libraries. The last one is the storage root that
`Lib_OVMCodec.decodeEVMAccount` finds. -/
structure Verifiers where
  insideFraudProofWindow : ChainBatchHeader → Result Bool
  verifyStateCommitment : Bytes32 → ChainBatchHeader → StateCommitmentChain.ChainInclusionProof →
    Result Bool
  get : Bytes → Bytes → Bytes32 → Result (Bool × Bytes)
  verifyInclusionProof : Bytes → Bytes → Bytes → Bytes32 → Result Bool
  decodeStorageRoot : Bytes → Result Bytes32

structure Environment where
  sender : Address
  number : Uint256
  owner : Address
  resolve : String → Address
  verifiers : Verifiers

structure Variant (H : Type) where
  verifyStateRootProof : Verifiers → L2MessageInclusionProof → Result Bool
  recordFailure : H → (H → Bool) → H → Bool
  batchRelayer : Option String
  unpausable : Bool

section Variants

variable {H : Type} [DecidableEq H]

/-- `L1CrossDomainMessenger`: the state root must be outside of the fraud proof window. -/
def verifyStateRootProof (v : Verifiers) (proof : L2MessageInclusionProof) : Result Bool := do
  let inside ← v.insideFraudProofWindow proof.stateRootBatchHeader
  if inside = false then
    v.verifyStateCommitment proof.stateRoot proof.stateRootBatchHeader proof.stateRootProof
  else
    return false

def recordFailure (h : H) (failedMessages : H → Bool) : H → Bool :=
  Function.update failedMessages h true

def standard : Variant H := ⟨verifyStateRootProof, recordFailure, none, false⟩

namespace Fast

def verifyStateRootProof (v : Verifiers) (proof : L2MessageInclusionProof) : Result Bool :=
  v.verifyStateCommitment proof.stateRoot proof.stateRootBatchHeader proof.stateRootProof

omit [DecidableEq H] in
/-- The source compares, `failedMessages[xDomainCalldataHash] == true;`, and does not assign. -/
def recordFailure (_ : H) (failedMessages : H → Bool) : H → Bool := failedMessages

end Fast

def fast : Variant H :=
  ⟨Fast.verifyStateRootProof, Fast.recordFailure, some "OVM_FastRelayer", true⟩

end Variants

section Contract

variable {H : Type} [DecidableEq H] (hash : Hashing H) (variant : Variant H)

def World.init : World H :=
  ⟨fun _ => false, fun _ => false, fun _ => false, fun _ => false, DEFAULT_XDOMAIN_SENDER, false,
    false, []⟩

def onlyOwner (env : Environment) : Result Unit :=
  require (env.sender = env.owner) "Ownable: caller is not the owner"

def pause (env : Environment) (w : World H) : Result (World H) := do
  onlyOwner env
  require (w.paused = false) "Pausable: paused"
  return {w with paused := true}

def unpause (env : Environment) (w : World H) : Result (World H) := do
  onlyOwner env
  require (w.paused = true) "Pausable: not paused"
  return {w with paused := false}

def blockMessage (env : Environment) (h : H) (w : World H) : Result (World H) := do
  onlyOwner env
  return {w with blockedMessages := Function.update w.blockedMessages h true}

def allowMessage (env : Environment) (h : H) (w : World H) : Result (World H) := do
  onlyOwner env
  return {w with blockedMessages := Function.update w.blockedMessages h false}

def storageKey (xDomainCalldata : Bytes) : H :=
  mappingSlot hash (sentMessageKey hash xDomainCalldata L2_CROSS_DOMAIN_MESSENGER)

def verifyStorageProof (v : Verifiers) (xDomainCalldata : Bytes)
    (proof : L2MessageInclusionProof) : Result Bool := do
  let (found, account) ←
    v.get (addressBytes L2_TO_L1_MESSAGE_PASSER) proof.stateTrieWitness proof.stateRoot
  require (found = true)
    "Message passing predeploy has not been initialized or invalid proof provided."
  let storageRoot ← v.decodeStorageRoot account
  v.verifyInclusionProof (hash.toBytes (storageKey hash xDomainCalldata)) [1]
    proof.storageTrieWitness storageRoot

def verifyXDomainMessage (v : Verifiers) (xDomainCalldata : Bytes)
    (proof : L2MessageInclusionProof) : Result Bool := do
  let root ← variant.verifyStateRootProof v proof
  if root = true then verifyStorageProof hash v xDomainCalldata proof else return false

def recordOutcome (h : H) (success : Bool) (w : World H) : World H :=
  if success then
    {w with successfulMessages := Function.update w.successfulMessages h true}
  else
    {w with failedMessages := variant.recordFailure h w.failedMessages}

/-- The call of the target and the bookkeeping after it. A call that fails is rolled back. -/
def callTarget (env : Environment) (m : CrossDomainMessage) (call : World H → World H × Bool)
    (w : World H) : World H :=
  let w : World H := {w with xDomainMsgSender := m.sender}
  let (after, success) := call w
  let w : World H := if success then after else w
  let w : World H := {w with
    xDomainMsgSender := DEFAULT_XDOMAIN_SENDER
    executed := w.executed ++ [⟨m, success⟩]}
  let w := recordOutcome variant (xDomainCalldataHash hash m) success w
  {w with relayedMessages :=
    Function.update w.relayedMessages (relayId hash m env.sender env.number) true}

def relayMessage (env : Environment) (m : CrossDomainMessage) (proof : L2MessageInclusionProof)
    (call : World H → World H × Bool) (w : World H) : Result (World H) := do
  -- The modifiers `nonReentrant` and `whenNotPaused`.
  require (w.entered = false) "ReentrancyGuard: reentrant call"
  require (w.paused = false) "Pausable: paused"
  let verified ← verifyXDomainMessage hash variant env.verifiers (encodeXDomainCalldata m) proof
  require (verified = true) "Provided message could not be verified."
  require (w.successfulMessages (xDomainCalldataHash hash m) = false)
    "Provided message has already been received."
  require (w.blockedMessages (xDomainCalldataHash hash m) = false)
    "Provided message has been blocked."
  require (m.target ≠ env.resolve "CanonicalTransactionChain")
    "Cannot send L2->L1 messages to L1 system contracts."
  let w := callTarget hash variant env m call {w with entered := true}
  return {w with entered := false}

structure BatchItem (H : Type) where
  message : CrossDomainMessage
  proof : L2MessageInclusionProof
  call : World H → World H × Bool

def onlyRelayer (env : Environment) : Result Unit :=
  match variant.batchRelayer with
  | none => .ok ()
  | some name => require (env.sender = env.resolve name)
      "L1CrossDomainMessengerFast: Function can only be called by the FastRelayer"

def relayAll (env : Environment) : List (BatchItem H) → World H → Result (World H)
  | [], w => .ok w
  | item :: items, w => do
    let w ← relayMessage hash variant env item.message item.proof item.call w
    relayAll env items w

def batchRelayMessages (env : Environment) (items : List (BatchItem H)) (w : World H) :
    Result (World H) := do
  onlyRelayer variant env
  relayAll hash variant env items w

/-- Finitely many calls, nested at any depth, whose verifiers satisfy `Trusted`. Calls that revert
leave no trace. -/
inductive Steps (Trusted : Verifiers → Prop) : World H → World H → Prop
  | refl (w : World H) : Steps Trusted w w
  | pause {w v u : World H} (env : Environment) (before : Steps Trusted w v)
      (ok : pause env v = .ok u) : Steps Trusted w u
  | unpause {w v u : World H} (env : Environment) (before : Steps Trusted w v)
      (has : variant.unpausable = true) (ok : unpause env v = .ok u) : Steps Trusted w u
  | blockMessage {w v u : World H} (env : Environment) (h : H) (before : Steps Trusted w v)
      (ok : blockMessage env h v = .ok u) : Steps Trusted w u
  | allowMessage {w v u : World H} (env : Environment) (h : H) (before : Steps Trusted w v)
      (ok : allowMessage env h v = .ok u) : Steps Trusted w u
  | relayMessage {w v u : World H} (env : Environment) (m : CrossDomainMessage)
      (proof : L2MessageInclusionProof) (call : World H → World H × Bool)
      (before : Steps Trusted w v) (trusted : Trusted env.verifiers)
      (inner : ∀ x, Steps Trusted x (call x).1)
      (ok : relayMessage hash variant env m proof call v = .ok u) : Steps Trusted w u
  | batchRelayMessages {w v u : World H} (env : Environment) (items : List (BatchItem H))
      (before : Steps Trusted w v) (trusted : Trusted env.verifiers)
      (inner : ∀ item ∈ items, ∀ x, Steps Trusted x (item.call x).1)
      (ok : batchRelayMessages hash variant env items v = .ok u) : Steps Trusted w u

end Contract

variable {H : Type}

/-- Only what the owner may set differs. -/
def SameCore (w u : World H) : Prop :=
  ∃ blockedMessages paused, u = {w with blockedMessages, paused}

variable {w u : World H}

theorem SameCore.entered (h : SameCore w u) : u.entered = w.entered := by
  obtain ⟨_, _, rfl⟩ := h
  rfl

theorem SameCore.trans {v : World H} (h : SameCore w v) (h' : SameCore v u) : SameCore w u := by
  obtain ⟨_, _, rfl⟩ := h
  obtain ⟨_, _, rfl⟩ := h'
  exact ⟨_, _, rfl⟩

variable {env : Environment}

theorem pause_sameCore (h : pause env w = .ok u) : SameCore w u := by
  simp only [pause, bind_eq_ok, pure_eq_ok] at h
  obtain ⟨-, -, -, -, rfl⟩ := h
  exact ⟨_, _, rfl⟩

theorem unpause_sameCore (h : unpause env w = .ok u) : SameCore w u := by
  simp only [unpause, bind_eq_ok, pure_eq_ok] at h
  obtain ⟨-, -, -, -, rfl⟩ := h
  exact ⟨_, _, rfl⟩

variable [DecidableEq H] {hash : Hashing H} {variant : Variant H} {Trusted : Verifiers → Prop}

theorem blockMessage_sameCore {h : H} (hok : blockMessage env h w = .ok u) : SameCore w u := by
  simp only [blockMessage, bind_eq_ok, pure_eq_ok] at hok
  obtain ⟨-, -, rfl⟩ := hok
  exact ⟨_, _, rfl⟩

theorem allowMessage_sameCore {h : H} (hok : allowMessage env h w = .ok u) : SameCore w u := by
  simp only [allowMessage, bind_eq_ok, pure_eq_ok] at hok
  obtain ⟨-, -, rfl⟩ := hok
  exact ⟨_, _, rfl⟩

variable {m : CrossDomainMessage} {proof : L2MessageInclusionProof}
  {call : World H → World H × Bool}

theorem relayMessage_not_entered (h : relayMessage hash variant env m proof call w = .ok u) :
    w.entered = false := by
  simp only [relayMessage, bind_eq_ok, require_eq_ok] at h
  obtain ⟨-, hentered, -⟩ := h
  exact hentered

theorem Steps.sameCore (h : Steps hash variant Trusted w u) (hentered : w.entered = true) :
    SameCore w u := by
  induction h with
  | refl => exact ⟨_, _, rfl⟩
  | pause env _ ok ih => exact (ih hentered).trans (pause_sameCore ok)
  | unpause env _ has ok ih => exact (ih hentered).trans (unpause_sameCore ok)
  | blockMessage env h _ ok ih => exact (ih hentered).trans (blockMessage_sameCore ok)
  | allowMessage env h _ ok ih => exact (ih hentered).trans (allowMessage_sameCore ok)
  | relayMessage env m proof call _ trusted inner ok ih =>
    have hfalse := relayMessage_not_entered ok
    rw [(ih hentered).entered, hentered] at hfalse
    cases hfalse
  | batchRelayMessages env items _ trusted inner ok ih =>
    simp only [L1.batchRelayMessages, bind_eq_ok] at ok
    obtain ⟨-, -, ok⟩ := ok
    cases items with
    | nil =>
      cases ok
      exact ih hentered
    | cons =>
      simp only [relayAll, bind_eq_ok] at ok
      obtain ⟨x, hrelay, -⟩ := ok
      have hfalse := relayMessage_not_entered hrelay
      rw [(ih hentered).entered, hentered] at hfalse
      cases hfalse

/-- What a relay does, from the outside: `success` is the outcome of its target call. -/
structure Relayed (hash : Hashing H) (variant : Variant H) (env : Environment)
    (m : CrossDomainMessage) (proof : L2MessageInclusionProof) (success : Bool) (w u : World H) :
    Prop where
  verified : verifyXDomainMessage hash variant env.verifiers (encodeXDomainCalldata m) proof =
    .ok true
  fresh : w.successfulMessages (xDomainCalldataHash hash m) = false
  executed : u.executed = w.executed ++ [⟨m, success⟩]
  successfulMessages : u.successfulMessages =
    if success then Function.update w.successfulMessages (xDomainCalldataHash hash m) true
    else w.successfulMessages
  failedMessages : u.failedMessages =
    if success then w.failedMessages
    else variant.recordFailure (xDomainCalldataHash hash m) w.failedMessages
  xDomainMsgSender : u.xDomainMsgSender = DEFAULT_XDOMAIN_SENDER
  entered : u.entered = false

theorem relayMessage_relayed (inner : ∀ x, Steps hash variant Trusted x (call x).1)
    (h : relayMessage hash variant env m proof call w = .ok u) :
    ∃ success, Relayed hash variant env m proof success w u := by
  simp only [relayMessage, bind_eq_ok, require_eq_ok, pure_eq_ok] at h
  obtain ⟨-, -, -, -, verified, hverified, -, rfl, -, hfresh, -, -, -, -, rfl⟩ := h
  let x : World H := {w with entered := true, xDomainMsgSender := m.sender}
  have hcore : SameCore x (call x).1 := (inner x).sameCore rfl
  cases hcall : call x with
  | mk after success =>
    rw [hcall] at hcore
    obtain ⟨_, _, rfl⟩ : ∃ blockedMessages paused, after = {x with blockedMessages, paused} := hcore
    have hcall' : call {w with entered := true, xDomainMsgSender := m.sender} = (_, success) :=
      hcall
    refine ⟨success, hverified, hfresh, ?_, ?_, ?_, ?_, rfl⟩ <;>
      cases success <;> simp [x, callTarget, recordOutcome, hcall']

variable {P : World H → Prop}

theorem relayAll_invariant {items : List (BatchItem H)}
    (hrelay : ∀ w u m proof success, Relayed hash variant env m proof success w u → P w → P u)
    (inner : ∀ item ∈ items, ∀ x, Steps hash variant Trusted x (item.call x).1)
    (h : relayAll hash variant env items w = .ok u) (hentered : w.entered = false) (hw : P w) :
    P u ∧ u.entered = false := by
  induction items generalizing w with
  | nil =>
    cases h
    exact ⟨hw, hentered⟩
  | cons item items ih =>
    simp only [relayAll, bind_eq_ok] at h
    obtain ⟨v, hfirst, hrest⟩ := h
    obtain ⟨success, hrelayed⟩ := relayMessage_relayed (inner item (by simp)) hfirst
    exact ih (fun item' hmem => inner item' (by simp [hmem])) hrest hrelayed.entered
      (hrelay _ _ _ _ _ hrelayed hw)

theorem Steps.invariant (hcore : ∀ w u, SameCore w u → P w → P u) (hrelay : ∀ env w u m proof
      success, Trusted env.verifiers → Relayed hash variant env m proof success w u → P w → P u)
    (h : Steps hash variant Trusted w u) (hentered : w.entered = false) (hw : P w) :
    P u ∧ u.entered = false := by
  have hsame : ∀ {v x : World H}, P v ∧ v.entered = false → SameCore v x →
      P x ∧ x.entered = false :=
    fun hv hx => ⟨hcore _ _ hx hv.1, hx.entered.trans hv.2⟩
  induction h with
  | refl => exact ⟨hw, hentered⟩
  | pause env _ ok ih => exact hsame (ih hentered hw) (pause_sameCore ok)
  | unpause env _ has ok ih => exact hsame (ih hentered hw) (unpause_sameCore ok)
  | blockMessage env h _ ok ih => exact hsame (ih hentered hw) (blockMessage_sameCore ok)
  | allowMessage env h _ ok ih => exact hsame (ih hentered hw) (allowMessage_sameCore ok)
  | relayMessage env m proof call _ trusted inner ok ih _ =>
    obtain ⟨success, hrelayed⟩ := relayMessage_relayed inner ok
    exact ⟨hrelay env _ _ _ _ _ trusted hrelayed (ih hentered hw).1, hrelayed.entered⟩
  | batchRelayMessages env items _ trusted inner ok ih =>
    simp only [L1.batchRelayMessages, bind_eq_ok] at ok
    obtain ⟨-, -, ok⟩ := ok
    obtain ⟨hv, hventered⟩ := ih hentered hw
    exact relayAll_invariant (fun w u m proof success => hrelay env w u m proof success trusted)
      inner ok hventered hv

end L1

end Messaging
