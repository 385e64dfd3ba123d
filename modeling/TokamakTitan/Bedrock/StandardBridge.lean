import TokamakTitan.Messaging.Codec

/-! `StandardBridge` with its children `L1StandardBridge` and `L2StandardBridge`, and the tokens
that they mint, burn and hold. The bridges return the messages for their messenger. -/
namespace Bedrock.StandardBridge
open Checked
open Abi (Bytes)
open Messaging (L2_CROSS_DOMAIN_MESSENGER)

def L2_STANDARD_BRIDGE : Address := 0x4200000000000000000000000000000000000010

def LEGACY_ERC20_ETH : Address := 0xDeadDeAddeAddEAddeadDEaDDEAdDeaDDeAD0000

def RECEIVE_DEFAULT_GAS_LIMIT : Uint32 := 200000

inductive Side where
  | l1
  | l2
  deriving DecidableEq

def Side.other : Side → Side
  | l1 => l2
  | l2 => l1

/-- What stands at an address: an `OptimismMintableERC20`, a token that moves exactly the requested
amount, or anything else, which answers as the model's caller says. -/
inductive Kind where
  | mintable (bridge remoteToken : Address)
  | exact
  | other
  deriving DecidableEq

structure Deployment where
  l1Bridge : Address
  l1Messenger : Address
  kind : Side → Address → Kind

def Deployment.bridge (d : Deployment) : Side → Address
  | .l1 => d.l1Bridge
  | .l2 => L2_STANDARD_BRIDGE

def Deployment.messenger (d : Deployment) : Side → Address
  | .l1 => d.l1Messenger
  | .l2 => L2_CROSS_DOMAIN_MESSENGER

/-- What a contract that is no token of the two kinds does when the bridge calls it. -/
structure Answers where
  supportsInterface : Bool
  l1Token : Result Address
  move : Result Unit

structure Env where
  sender : Address
  value : Uint256
  xDomainMessageSender : Address
  isContract : Bool
  approved : Bool
  accepts : Bool
  answers : Answers

inductive Finalize where
  | finalizeBridgeETH (fromAddr toAddr : Address) (amount : Uint256) (extraData : Bytes)
  | finalizeBridgeERC20 (localToken remoteToken fromAddr toAddr : Address) (amount : Uint256)
      (extraData : Bytes)
  deriving DecidableEq

structure Sent where
  call : Finalize
  value : Uint256
  minGasLimit : Uint32
  deriving DecidableEq

structure Chain where
  deposits : Address → Address → Uint256
  balance : ℕ
  totalSupply : Address → Uint256
  balanceOf : Address → Address → Uint256

section Tokens

variable (d : Deployment) (side : Side) (env : Env)

def isOptimismMintableERC20 (token : Address) : Bool :=
  match d.kind side token with
  | .mintable _ _ => true
  | .exact => false
  | .other => env.answers.supportsInterface

def l1Token (token : Address) : Result Address :=
  match d.kind side token with
  | .mintable _ remoteToken => .ok remoteToken
  | .exact => .error .bare
  | .other => env.answers.l1Token

def isCorrectTokenPair (mintableToken otherToken : Address) : Result Bool := do
  let remoteToken ← l1Token d side env mintableToken
  return decide (otherToken = remoteToken)

def setBalance (token account : Address) (amount : Uint256) (s : Chain) : Chain :=
  {s with balanceOf :=
    Function.update s.balanceOf token (Function.update (s.balanceOf token) account amount)}

def mint (token toAddr : Address) (amount : Uint256) (s : Chain) : Result Chain :=
  match d.kind side token with
  | .mintable bridge _ => do
    require (d.bridge side = bridge) "OptimismMintableERC20: only bridge can mint and burn"
    require (toAddr ≠ 0) "ERC20: mint to the zero address"
    let supply ← add (s.totalSupply token) amount
    let balance ← add (s.balanceOf token toAddr) amount
    return setBalance token toAddr balance
      {s with totalSupply := Function.update s.totalSupply token supply}
  | .exact => .error .bare
  | .other => do
    env.answers.move
    return s

def burn (token fromAddr : Address) (amount : Uint256) (s : Chain) : Result Chain :=
  match d.kind side token with
  | .mintable bridge _ => do
    require (d.bridge side = bridge) "OptimismMintableERC20: only bridge can mint and burn"
    require (fromAddr ≠ 0) "ERC20: burn from the zero address"
    require (s.balanceOf token fromAddr ≥ amount) "ERC20: burn amount exceeds balance"
    let supply ← sub (s.totalSupply token) amount
    return setBalance token fromAddr (s.balanceOf token fromAddr - amount)
      {s with totalSupply := Function.update s.totalSupply token supply}
  | .exact => .error .bare
  | .other => do
    env.answers.move
    return s

variable (token fromAddr toAddr : Address)

def transfer (amount : Uint256) (s : Chain) : Result Chain :=
  match d.kind side token with
  | .mintable _ _ => .error .bare
  | .exact => do
    require (s.balanceOf token fromAddr ≥ amount) "ERC20: transfer amount exceeds balance"
    let s := setBalance token fromAddr (s.balanceOf token fromAddr - amount) s
    let balance ← add (s.balanceOf token toAddr) amount
    return setBalance token toAddr balance s
  | .other => do
    env.answers.move
    return s

def safeTransferFrom (amount : Uint256) (s : Chain) : Result Chain := do
  require (env.approved = true) "ERC20: insufficient allowance"
  transfer d side env token fromAddr toAddr amount s

end Tokens

section Functions

variable (d : Deployment) (side : Side) (env : Env)

def onlyEOA : Result Unit :=
  require (env.isContract = false) "StandardBridge: function can only be called from an EOA"

def FromOtherBridge : Prop :=
  env.sender = d.messenger side ∧ env.xDomainMessageSender = d.bridge side.other

instance : Decidable (FromOtherBridge d side env) := inferInstanceAs (Decidable (_ ∧ _))

def onlyOtherBridge : Result Unit :=
  require (FromOtherBridge d side env)
    "StandardBridge: function can only be called from the other bridge"

def nonPayable : Result Unit := if env.value = 0 then .ok () else .error .bare

def setDeposits (localToken remoteToken : Address) (amount : Uint256) (s : Chain) : Chain :=
  {s with
    deposits := Function.update s.deposits localToken
      (Function.update (s.deposits localToken) remoteToken amount)}

def initiateBridgeETH (fromAddr toAddr : Address) (amount : Uint256) (minGasLimit : Uint32)
    (extraData : Bytes) (s : Chain) : Result (Chain × List Sent) := do
  require (env.value = amount) "StandardBridge: bridging ETH must include sufficient ETH value"
  return ({s with balance := s.balance - amount.toNat},
    [⟨.finalizeBridgeETH fromAddr toAddr amount extraData, amount, minGasLimit⟩])

def takeERC20 (localToken remoteToken fromAddr : Address) (amount : Uint256) (s : Chain) :
    Result Chain :=
  if isOptimismMintableERC20 d side env localToken then do
    let correct ← isCorrectTokenPair d side env localToken remoteToken
    require (correct = true)
      "StandardBridge: wrong remote token for Optimism Mintable ERC20 local token"
    burn d side env localToken fromAddr amount s
  else do
    let s ← safeTransferFrom d side env localToken fromAddr (d.bridge side) amount s
    let total ← add (s.deposits localToken remoteToken) amount
    return setDeposits localToken remoteToken total s

def initiateBridgeERC20 (localToken remoteToken fromAddr toAddr : Address) (amount : Uint256)
    (minGasLimit : Uint32) (extraData : Bytes) (s : Chain) : Result (Chain × List Sent) := do
  let s ← takeERC20 d side env localToken remoteToken fromAddr amount s
  return (s, [⟨.finalizeBridgeERC20 remoteToken localToken fromAddr toAddr amount extraData, 0,
    minGasLimit⟩])

def finalizeBridgeETH (toAddr : Address) (amount : Uint256) (s : Chain) : Result Chain := do
  onlyOtherBridge d side env
  require (env.value = amount) "StandardBridge: amount sent does not match amount required"
  require (toAddr ≠ d.bridge side) "StandardBridge: cannot send to self"
  require (toAddr ≠ d.messenger side) "StandardBridge: cannot send to messenger"
  require (env.accepts = true) "StandardBridge: ETH transfer failed"
  return {s with balance := s.balance - amount.toNat}

def finalizeBridgeERC20 (localToken remoteToken toAddr : Address) (amount : Uint256) (s : Chain) :
    Result Chain := do
  onlyOtherBridge d side env
  if isOptimismMintableERC20 d side env localToken then
    let correct ← isCorrectTokenPair d side env localToken remoteToken
    require (correct = true)
      "StandardBridge: wrong remote token for Optimism Mintable ERC20 local token"
    mint d side env localToken toAddr amount s
  else
    let rest ← sub (s.deposits localToken remoteToken) amount
    transfer d side env localToken (d.bridge side) toAddr amount
      (setDeposits localToken remoteToken rest s)

def initiateWithdrawal (l2Token fromAddr toAddr : Address) (amount : Uint256)
    (minGasLimit : Uint32) (extraData : Bytes) (s : Chain) : Result (Chain × List Sent) := do
  let remoteToken ← l1Token d side env l2Token
  if l2Token = LEGACY_ERC20_ETH then
    initiateBridgeETH env fromAddr toAddr amount minGasLimit extraData s
  else
    initiateBridgeERC20 d side env l2Token remoteToken fromAddr toAddr amount minGasLimit extraData
      s

/-- The external functions: those of `StandardBridge`, then those that its children add. -/
inductive Call where
  | receive
  | bridgeETH (minGasLimit : Uint32) (extraData : Bytes)
  | bridgeETHTo (toAddr : Address) (minGasLimit : Uint32) (extraData : Bytes)
  | bridgeERC20 (localToken remoteToken : Address) (amount : Uint256) (minGasLimit : Uint32)
      (extraData : Bytes)
  | bridgeERC20To (localToken remoteToken toAddr : Address) (amount : Uint256)
      (minGasLimit : Uint32) (extraData : Bytes)
  | finalize (call : Finalize)
  | depositETH (minGasLimit : Uint32) (extraData : Bytes)
  | depositETHTo (toAddr : Address) (minGasLimit : Uint32) (extraData : Bytes)
  | depositERC20 (l1Token l2Token : Address) (amount : Uint256) (minGasLimit : Uint32)
      (extraData : Bytes)
  | depositERC20To (l1Token l2Token toAddr : Address) (amount : Uint256) (minGasLimit : Uint32)
      (extraData : Bytes)
  | finalizeETHWithdrawal (fromAddr toAddr : Address) (amount : Uint256) (extraData : Bytes)
  | finalizeERC20Withdrawal (l1Token l2Token fromAddr toAddr : Address) (amount : Uint256)
      (extraData : Bytes)
  | withdraw (l2Token : Address) (amount : Uint256) (minGasLimit : Uint32) (extraData : Bytes)
  | withdrawTo (l2Token toAddr : Address) (amount : Uint256) (minGasLimit : Uint32)
      (extraData : Bytes)
  | finalizeDeposit (l1Token l2Token fromAddr toAddr : Address) (amount : Uint256)
      (extraData : Bytes)
  deriving DecidableEq

def Call.definedOn : Call → Option Side
  | depositETH .. | depositETHTo .. | depositERC20 .. | depositERC20To ..
  | finalizeETHWithdrawal .. | finalizeERC20Withdrawal .. => some .l1
  | withdraw .. | withdrawTo .. | finalizeDeposit .. => some .l2
  | _ => none

def silent (s : Result Chain) : Result (Chain × List Sent) := do
  let s ← s
  return (s, [])

def run (call : Call) (s : Chain) : Result (Chain × List Sent) :=
  match call with
  | .receive => do
    onlyEOA env
    initiateBridgeETH env env.sender env.sender env.value RECEIVE_DEFAULT_GAS_LIMIT [] s
  | .bridgeETH minGasLimit extraData | .depositETH minGasLimit extraData => do
    onlyEOA env
    initiateBridgeETH env env.sender env.sender env.value minGasLimit extraData s
  | .bridgeETHTo toAddr minGasLimit extraData | .depositETHTo toAddr minGasLimit extraData =>
    initiateBridgeETH env env.sender toAddr env.value minGasLimit extraData s
  | .bridgeERC20 localToken remoteToken amount minGasLimit extraData
  | .depositERC20 localToken remoteToken amount minGasLimit extraData => do
    nonPayable env
    onlyEOA env
    initiateBridgeERC20 d side env localToken remoteToken env.sender env.sender amount minGasLimit
      extraData s
  | .bridgeERC20To localToken remoteToken toAddr amount minGasLimit extraData
  | .depositERC20To localToken remoteToken toAddr amount minGasLimit extraData => do
    nonPayable env
    initiateBridgeERC20 d side env localToken remoteToken env.sender toAddr amount minGasLimit
      extraData s
  | .finalize (.finalizeBridgeETH _ toAddr amount _) =>
    silent (finalizeBridgeETH d side env toAddr amount s)
  | .finalize (.finalizeBridgeERC20 localToken remoteToken _ toAddr amount _) => do
    nonPayable env
    silent (finalizeBridgeERC20 d side env localToken remoteToken toAddr amount s)
  | .finalizeETHWithdrawal _ toAddr amount _ => do
    onlyOtherBridge d side env
    silent (finalizeBridgeETH d side env toAddr amount s)
  | .finalizeERC20Withdrawal l1Token l2Token _ toAddr amount _ => do
    nonPayable env
    onlyOtherBridge d side env
    silent (finalizeBridgeERC20 d side env l1Token l2Token toAddr amount s)
  | .withdraw l2Token amount minGasLimit extraData => do
    onlyEOA env
    initiateWithdrawal d side env l2Token env.sender env.sender amount minGasLimit extraData s
  | .withdrawTo l2Token toAddr amount minGasLimit extraData =>
    initiateWithdrawal d side env l2Token env.sender toAddr amount minGasLimit extraData s
  | .finalizeDeposit l1Token l2Token _ toAddr amount _ =>
    if l1Token = 0 ∧ l2Token = LEGACY_ERC20_ETH then
      silent (finalizeBridgeETH d side env toAddr amount s)
    else
      silent (finalizeBridgeERC20 d side env l2Token l1Token toAddr amount s)

def exec (call : Call) (s : Chain) : Result (Chain × List Sent) :=
  if call.definedOn = some side.other then .error .bare
  else run d side env call {s with balance := s.balance + env.value.toNat}

end Functions

structure World where
  chain : Side → Chain
  channel : Side → List Sent

def World.after (w : World) (side : Side) (s : Chain) (sent : List Sent) : World where
  chain := Function.update w.chain side s
  channel := Function.update w.channel side.other (w.channel side.other ++ sent)

structure Entry where
  side : Side
  env : Env
  call : Call

/-- The accepted calls, as for the earlier bridges: messages are delivered in any order, the
messenger makes other calls too, and calls made while a token or a receiver of ETH is called are
steps of their own. -/
inductive Step (d : Deployment) : Entry → World → World → Prop
  | call {w : World} {side : Side} {env : Env} {call : Call} {s : Chain} {sent : List Sent}
      (outside : ¬ FromOtherBridge d side env)
      (ok : exec d side env call (w.chain side) = .ok (s, sent)) :
      Step d ⟨side, env, call⟩ w (w.after side s sent)
  | deliver {w : World} {side : Side} {env : Env} {m : Sent} {s : Chain} {sent : List Sent}
      {before after : List Sent} (pending : w.channel side = before ++ m :: after)
      (source : FromOtherBridge d side env) (value : env.value = m.value)
      (ok : exec d side env (.finalize m.call) (w.chain side) = .ok (s, sent)) :
      Step d ⟨side, env, .finalize m.call⟩ w
        ({w with channel := Function.update w.channel side (before ++ after)}.after side s sent)

def Moved (w w' : World) : Prop :=
  ∃ side balanceOf,
    w' = {w with chain := Function.update w.chain side {w.chain side with balanceOf}}

structure Fresh (w : World) : Prop where
  deposits : ∀ side, (w.chain side).deposits = fun _ _ => 0
  totalSupply : ∀ side, (w.chain side).totalSupply = fun _ => 0
  channel : ∀ side, w.channel side = []

end Bedrock.StandardBridge
