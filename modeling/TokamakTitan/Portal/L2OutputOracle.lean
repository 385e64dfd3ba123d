import TokamakTitan.Library.Transactions

/-! The L2 output oracle: a proposer commits to the outputs of every `SUBMISSION_INTERVAL`-th L2
block, and the owner may delete the latest. -/
namespace Portal
open Checked Transactions

structure OutputProposal (H : Type) where
  outputRoot : H
  timestamp : Uint256
  deriving DecidableEq

def OutputProposal.absent {H : Type} [Zero H] : OutputProposal H := ⟨0, 0⟩

namespace L2OutputOracle

structure Config where
  submissionInterval : Uint256
  startingBlockNumber : Uint256
  startingTimestamp : Uint256
  l2BlockTime : Uint256
  deriving DecidableEq

structure Storage (H : Type) where
  owner : Address
  proposer : Address
  latestBlockNumber : Uint256
  l2Outputs : Uint256 → OutputProposal H

structure Env (H : Type) where
  sender : Address
  timestamp : Uint256
  blockhash : Uint256 → H

inductive Event (H : Type) where
  | outputProposed (outputRoot : H) (l1Timestamp l2BlockNumber : Uint256)
  | outputDeleted (outputRoot : H) (l1Timestamp l2BlockNumber : Uint256)
  | proposerChanged (previousProposer newProposer : Address)
  | ownershipTransferred (previousOwner newOwner : Address)
  deriving DecidableEq

def Event.proposal {H : Type} : Event H → Option (Uint256 × OutputProposal H)
  | outputProposed outputRoot l1Timestamp l2BlockNumber =>
    some (l2BlockNumber, ⟨outputRoot, l1Timestamp⟩)
  | _ => none

section Functions

variable {H : Type} [DecidableEq H] [Zero H] (config : Config) (env : Env H) (s : Storage H)

def onlyOwner : Result Unit :=
  require (s.owner = env.sender) "Ownable: caller is not the owner"

def onlyProposer : Result Unit :=
  require (s.proposer = env.sender) "L2OutputOracle: function can only be called by proposer"

def nextBlockNumber : Result Uint256 :=
  add s.latestBlockNumber config.submissionInterval

variable (l2BlockNumber : Uint256)

def computeL2Timestamp : Result Uint256 := do
  require (config.startingBlockNumber ≤ l2BlockNumber)
    "L2OutputOracle: block number must be greater than or equal to starting block number"
  let elapsed ← mul (← sub l2BlockNumber config.startingBlockNumber) config.l2BlockTime
  add config.startingTimestamp elapsed

def deleteL2Output (proposal : OutputProposal H) (s : Storage H) :
    Result (Storage H × List (Event H)) := do
  onlyOwner env s
  let outputToDelete := s.l2Outputs s.latestBlockNumber
  require (proposal.outputRoot = outputToDelete.outputRoot)
    "L2OutputOracle: output root to delete does not match the latest output proposal"
  require (proposal.timestamp = outputToDelete.timestamp)
    "L2OutputOracle: timestamp to delete does not match the latest output proposal"
  let latestBlockNumber ← sub s.latestBlockNumber config.submissionInterval
  return ({s with
    l2Outputs := Function.update s.l2Outputs s.latestBlockNumber .absent
    latestBlockNumber},
    [.outputDeleted outputToDelete.outputRoot outputToDelete.timestamp s.latestBlockNumber])

def proposeL2Output (outputRoot : H) (l2BlockNumber : Uint256) (l1Blockhash : H)
    (l1BlockNumber : Uint256) (s : Storage H) : Result (Storage H × List (Event H)) := do
  onlyProposer env s
  let next ← nextBlockNumber config s
  require (l2BlockNumber = next)
    "L2OutputOracle: block number must be equal to next expected block number"
  let l2Timestamp ← computeL2Timestamp config l2BlockNumber
  require (l2Timestamp < env.timestamp) "L2OutputOracle: cannot propose L2 output in the future"
  require (outputRoot ≠ 0) "L2OutputOracle: L2 output proposal cannot be the zero hash"
  require (l1Blockhash ≠ 0 → env.blockhash l1BlockNumber = l1Blockhash)
    "L2OutputOracle: blockhash does not match the hash at the expected height"
  return ({s with
    l2Outputs := Function.update s.l2Outputs l2BlockNumber ⟨outputRoot, env.timestamp⟩
    latestBlockNumber := l2BlockNumber},
    [.outputProposed outputRoot env.timestamp l2BlockNumber])

def lookupBlockNumber : Result Uint256 := do
  require (config.startingBlockNumber ≤ l2BlockNumber)
    "L2OutputOracle: block number cannot be less than the starting block number."
  let distance ← sub l2BlockNumber config.startingBlockNumber
  let offset ← mod distance config.submissionInterval
  if offset = 0 then return l2BlockNumber
  else add l2BlockNumber (← sub config.submissionInterval offset)

def getL2Output (s : Storage H) : Result (OutputProposal H) := do
  let lookup ← lookupBlockNumber config l2BlockNumber
  let output := s.l2Outputs lookup
  require (output.outputRoot ≠ 0) "L2OutputOracle: No output found for that block number."
  return output

def changeProposer (newProposer : Address) (s : Storage H) :
    Result (Storage H × List (Event H)) := do
  onlyOwner env s
  require (newProposer ≠ 0) "L2OutputOracle: new proposer cannot be the zero address"
  require (newProposer ≠ s.owner) "L2OutputOracle: proposer cannot be the same as the owner"
  return ({s with proposer := newProposer}, [.proposerChanged s.proposer newProposer])

def transferOwnership (newOwner : Address) (s : Storage H) :
    Result (Storage H × List (Event H)) := do
  onlyOwner env s
  require (newOwner ≠ s.proposer) "L2OutputOracle: owner cannot be the same as the proposer"
  require (newOwner ≠ 0) "Ownable: new owner is the zero address"
  return ({s with owner := newOwner}, [.ownershipTransferred s.owner newOwner])

def renounceOwnership : Result (Storage H × List (Event H)) := do
  onlyOwner env s
  return ({s with owner := 0}, [.ownershipTransferred s.owner 0])

/-- The initializer, which can run once: the deployer owns the contract until its end. -/
def initializeStorage (genesisL2Output : H) (startingBlockNumber : Uint256)
    (proposer owner : Address) : Result (Storage H) := do
  require (proposer ≠ owner) "L2OutputOracle: proposer cannot be the same as the owner"
  let s : Storage H := {
    owner := env.sender
    proposer := 0
    latestBlockNumber := startingBlockNumber
    l2Outputs := Function.update (fun _ => .absent) startingBlockNumber
      ⟨genesisL2Output, env.timestamp⟩ }
  let (s, _) ← changeProposer env proposer s
  return {s with owner}

def construct (genesisL2Output : H) (proposer owner : Address) : Result (Storage H) := do
  require (config.startingTimestamp ≤ env.timestamp)
    "L2OutputOracle: starting L2 timestamp must be less than current time"
  initializeStorage env genesisL2Output config.startingBlockNumber proposer owner

end Functions

inductive Call (H : Type) where
  | proposeL2Output (outputRoot : H) (l2BlockNumber : Uint256) (l1Blockhash : H)
      (l1BlockNumber : Uint256)
  | deleteL2Output (proposal : OutputProposal H)
  | changeProposer (newProposer : Address)
  | transferOwnership (newOwner : Address)
  | renounceOwnership

def Call.isDelete {H : Type} : Call H → Bool
  | .deleteL2Output _ => true
  | _ => false

structure Tx (H : Type) where
  env : Env H
  call : Call H

def exec {H : Type} [DecidableEq H] [Zero H] (config : Config) (s : Storage H) (tx : Tx H) :
    Result (Storage H × List (Event H)) :=
  match tx.call with
  | .proposeL2Output outputRoot l2BlockNumber l1Blockhash l1BlockNumber =>
    proposeL2Output config tx.env outputRoot l2BlockNumber l1Blockhash l1BlockNumber s
  | .deleteL2Output proposal => deleteL2Output config tx.env proposal s
  | .changeProposer newProposer => changeProposer tx.env newProposer s
  | .transferOwnership newOwner => transferOwnership tx.env newOwner s
  | .renounceOwnership => renounceOwnership tx.env s

end L2OutputOracle

end Portal
