import TokamakTitan.Library.CallStack
import TokamakTitan.Messaging.Codec
import TokamakTitan.Portal.L2OutputOracle

/-! Withdrawals: `L2ToL1MessagePasser` records them on L2, the output oracle commits to its storage,
and `OptimismPortal` proves them and calls their targets on L1. -/
namespace Portal
open Checked Messaging
open Abi (Bytes encodeBytes)

def DEFAULT_L2_SENDER : Address := 0x000000000000000000000000000000000000dEaD

def FINALIZE_GAS_BUFFER : Uint256 := 20000

structure WithdrawalTransaction where
  nonce : Uint256
  sender : Address
  target : Address
  value : Uint256
  gasLimit : Uint256
  data : Bytes
  deriving DecidableEq

structure OutputRootProof (H : Type) where
  version : H
  stateRoot : H
  messagePasserStorageRoot : H
  latestBlockhash : H
  deriving DecidableEq

/-- Outside of the contracts: the hash function, the storage slot of the passer's `nonce`, the root
of a storage trie and the verification of proofs; and the deployment. -/
structure Deployment (H : Type) where
  hash : Hashing H
  nonceSlot : H
  storageRoot : (H → Uint256) → H
  verifyInclusionProof : Bytes → Bytes → Bytes → H → Result Bool
  oracle : L2OutputOracle.Config
  portal : Address
  finalizationPeriodSeconds : Uint256

structure L2Block (H : Type) where
  output : OutputRootProof H
  passer : H → Uint256

structure Initiation where
  tx : WithdrawalTransaction
  block : ℕ
  deriving DecidableEq

structure TargetCall (H : Type) where
  tx : WithdrawalTransaction
  l2BlockNumber : Uint256
  proposal : OutputProposal H
  timestamp : Uint256

/-- The L2 chain up to its open block `number`, and the L1 contracts. The lists record what was
initiated on L2, proposed to the oracle, and called by the portal. -/
structure World (H : Type) where
  number : ℕ
  passer : H → Uint256
  blocks : ℕ → Option (L2Block H)
  timestamp : Uint256
  oracle : L2OutputOracle.Storage H
  l2Sender : Address
  finalizedWithdrawals : H → Bool
  initiated : List Initiation
  proposed : List (Uint256 × OutputProposal H)
  calls : List (TargetCall H)

section Hashes

variable {H : Type} (hash : Hashing H)

def hashWithdrawal (tx : WithdrawalTransaction) : H :=
  hash.keccak (encodeBytes [tx.nonce, tx.sender.setWidth 256, tx.target.setWidth 256, tx.value,
    tx.gasLimit] tx.data [])

def hashOutputRootProof (proof : OutputRootProof H) : H :=
  hash.keccak (hash.toBytes proof.version ++ (hash.toBytes proof.stateRoot ++
    (hash.toBytes proof.messagePasserStorageRoot ++ hash.toBytes proof.latestBlockhash)))

end Hashes

section Contracts

variable {H : Type} [DecidableEq H] [Zero H] (d : Deployment H)

/-- The mapping `sentMessages` is at slot zero of the passer, the nonce has a slot of its own. -/
def initiateWithdrawal (sender : Address) (value : Uint256) (target : Address)
    (gasLimit : Uint256) (data : Bytes) (w : World H) : World H :=
  let nonce := w.passer d.nonceSlot
  let tx : WithdrawalTransaction := { nonce, sender, target, value, gasLimit, data }
  let sentMessages :=
    Function.update w.passer (mappingSlot d.hash (hashWithdrawal d.hash tx)) 1
  {w with
    passer := Function.update sentMessages d.nonceSlot (nonce + 1)
    initiated := w.initiated ++ [⟨tx, w.number⟩]}

def sealBlock (version stateRoot latestBlockhash : H) (w : World H) : World H :=
  {w with
    number := w.number + 1
    blocks := Function.update w.blocks w.number (some {
      output := {
        version
        stateRoot
        messagePasserStorageRoot := d.storageRoot w.passer
        latestBlockhash }
      passer := w.passer })}

def isOutputFinalized (timestamp : Uint256) (proposal : OutputProposal H) : Result Bool := do
  let finalized ← add proposal.timestamp d.finalizationPeriodSeconds
  return decide (timestamp > finalized)

def verifyWithdrawalInclusion (withdrawalHash storageRoot : H) (proof : Bytes) : Result Bool :=
  d.verifyInclusionProof (d.hash.toBytes (mappingSlot d.hash withdrawalHash)) [0x01] proof
    storageRoot

/-- `finalizeWithdrawalTransaction` up to the call of the target; `gasleft` is the gas at the check
before it. -/
def finalizeWithdrawalTransaction (gasleft : Uint256) (tx : WithdrawalTransaction)
    (l2BlockNumber : Uint256) (outputRootProof : OutputRootProof H) (withdrawalProof : Bytes)
    (w : World H) : Result (World H) := do
  require (w.l2Sender = DEFAULT_L2_SENDER)
    "OptimismPortal: can only trigger one withdrawal per transaction"
  require (tx.target ≠ d.portal) "OptimismPortal: you cannot send messages to the portal contract"
  let proposal ← L2OutputOracle.getL2Output d.oracle l2BlockNumber w.oracle
  let finalized ← isOutputFinalized d w.timestamp proposal
  require (finalized = true) "OptimismPortal: proposal is not yet finalized"
  require (proposal.outputRoot = hashOutputRootProof d.hash outputRootProof)
    "OptimismPortal: invalid output root proof"
  let withdrawalHash := hashWithdrawal d.hash tx
  let included ← verifyWithdrawalInclusion d withdrawalHash
    outputRootProof.messagePasserStorageRoot withdrawalProof
  require (included = true) "OptimismPortal: invalid withdrawal inclusion proof"
  require (w.finalizedWithdrawals withdrawalHash = false)
    "OptimismPortal: withdrawal has already been finalized"
  let required ← add tx.gasLimit FINALIZE_GAS_BUFFER
  require (gasleft ≥ required) "OptimismPortal: insufficient gas to finalize withdrawal"
  return {w with
    finalizedWithdrawals := Function.update w.finalizedWithdrawals withdrawalHash true
    l2Sender := tx.sender
    calls := w.calls ++ [⟨tx, l2BlockNumber, proposal, w.timestamp⟩]}

/-- The rest of `finalizeWithdrawalTransaction`, whether the target succeeded or not. -/
def resetL2Sender (w : World H) : World H := {w with l2Sender := DEFAULT_L2_SENDER}

/-- Between L1 transactions time passes, withdrawals are initiated on L2, and L2 blocks end. -/
inductive Idle : World H → World H → Prop
  | tick {w : World H} {timestamp : Uint256} (h : w.timestamp ≤ timestamp) :
      Idle w {w with timestamp}
  | initiateWithdrawal {w : World H} (sender : Address) (value : Uint256) (target : Address)
      (gasLimit : Uint256) (data : Bytes) :
      Idle w (initiateWithdrawal d sender value target gasLimit data w)
  | sealBlock {w : World H} (version stateRoot latestBlockhash : H) :
      Idle w (sealBlock d version stateRoot latestBlockhash w)

/-- A call of the oracle that is accepted, in the block at the time of the world. -/
def OracleCall (w w' : World H) : Prop :=
  ∃ (tx : L2OutputOracle.Tx H) (oracle : L2OutputOracle.Storage H)
    (events : List (L2OutputOracle.Event H)),
    tx.env.timestamp = w.timestamp ∧
      L2OutputOracle.exec d.oracle w.oracle tx = .ok (oracle, events) ∧
      w' = {w with
        oracle
        proposed := w.proposed ++ events.filterMap L2OutputOracle.Event.proposal}

/-- The portal among arbitrary L1 code. A withdrawal waits while its target runs. -/
def portalContract : CallStack.Contract (World H) WithdrawalTransaction where
  idle := Idle d
  act := OracleCall d
  call tx w atCall w' := w' = atCall ∧ ∃ gasleft l2BlockNumber outputRootProof withdrawalProof,
    finalizeWithdrawalTransaction d gasleft tx l2BlockNumber outputRootProof withdrawalProof w =
      .ok atCall
  ret _ _ w w' := w' = resetL2Sender w

/-- Every stored output is that of its L2 block. -/
def TrueOutputs (w : World H) : Prop :=
  ∀ b, (w.oracle.l2Outputs b).outputRoot ≠ 0 → ∃ block, w.blocks b.toNat = some block ∧
    (w.oracle.l2Outputs b).outputRoot = hashOutputRootProof d.hash block.output

structure Initial (w : World H) : Prop where
  passer : w.passer = fun _ => 0
  blocks : ∀ n block, w.blocks n = some block →
    block.passer = (fun _ => 0) ∧ block.output.messagePasserStorageRoot = d.storageRoot fun _ => 0
  proposed : ∀ b, (w.oracle.l2Outputs b).outputRoot ≠ 0 → (b, w.oracle.l2Outputs b) ∈ w.proposed
  l2Sender : w.l2Sender = DEFAULT_L2_SENDER
  calls : w.calls = []

end Contracts

/-- Hashes determine what was hashed, and the bytes of a hash tell where it ends; an entry of a
mapping does not share its slot with a variable; and an accepted proof is one of the trie under the
root. -/
structure Deployment.Sound {H : Type} (d : Deployment H) : Prop where
  keccak : Function.Injective d.hash.keccak
  toBytes : ∀ {a b x y}, d.hash.toBytes a ++ x = d.hash.toBytes b ++ y → a = b ∧ x = y
  nonceSlot : ∀ key, mappingSlot d.hash key ≠ d.nonceSlot
  proofs : ∀ {key proof storage}, d.verifyInclusionProof (d.hash.toBytes key) [0x01] proof
    (d.storageRoot storage) = .ok true → storage key = 1

end Portal
