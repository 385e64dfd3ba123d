import TokamakTitan.Library.Abi
import TokamakTitan.Library.Checked

/-! `L1StandardBridge`, `L2StandardBridge` and `L2StandardERC20`. The bridges return the messages
for their messenger. L1 tokens move exactly the requested amount; an L2 token that is not a standard
one answers as the model's caller says. -/
namespace Bridge
open Checked Abi

def OVM_ETH : Address := 0xDeadDeAddeAddEAddeadDEaDDEAdDeaDDeAD0000

def L2_STANDARD_BRIDGE : Address := 0x4200000000000000000000000000000000000010

structure FinalizeDeposit where
  l1Token : Address
  l2Token : Address
  fromAddr : Address
  toAddr : Address
  amount : Uint256
  data : Bytes
  deriving DecidableEq

inductive Withdrawal where
  | finalizeETHWithdrawal (fromAddr toAddr : Address) (amount : Uint256) (data : Bytes)
  | finalizeERC20Withdrawal (l1Token l2Token fromAddr toAddr : Address) (amount : Uint256)
      (data : Bytes)
  deriving DecidableEq

def onlyFromCrossDomainAccount (messenger sourceDomainAccount sender xDomainMessageSender :
    Address) : Result Unit := do
  require (sender = messenger) "OVM_XCHAIN: messenger contract unauthenticated"
  require (xDomainMessageSender = sourceDomainAccount)
    "OVM_XCHAIN: wrong sender of cross-domain message"

abbrev Balances := Address → Address → ℕ

/-- `safeTransfer` and `safeTransferFrom` of an exact L1 token; there is no token at zero. -/
def transferExact (token fromAddr toAddr : Address) (amount : Uint256) (balances : Balances) :
    Result Balances := do
  require (token ≠ 0) "Address: call to non-contract"
  require (amount.toNat ≤ balances token fromAddr) "ERC20: transfer amount exceeds balance"
  let taken := Function.update (balances token) fromAddr (balances token fromAddr - amount.toNat)
  return Function.update balances token (Function.update taken toAddr (taken toAddr + amount.toNat))

namespace L1StandardBridge

structure State where
  deposits : Address → Address → Uint256
  eth : ℕ
  balances : Balances

structure Setup where
  bridge : Address
  messenger : Address
  l2TokenBridge : Address

variable (setup : Setup) (isContract : Address → Bool) (sender : Address)

def onlyEOA : Result Unit :=
  require (isContract sender = false) "Account not EOA"

def initiateETHDeposit (fromAddr toAddr : Address) (value : Uint256) (data : Bytes) (s : State) :
    State × List FinalizeDeposit :=
  ({s with eth := s.eth + value.toNat}, [⟨0, OVM_ETH, fromAddr, toAddr, value, data⟩])

def receive (value : Uint256) (s : State) : Result (State × List FinalizeDeposit) := do
  onlyEOA isContract sender
  return initiateETHDeposit sender sender value [] s

def depositETH (value : Uint256) (data : Bytes) (s : State) :
    Result (State × List FinalizeDeposit) := do
  onlyEOA isContract sender
  return initiateETHDeposit sender sender value data s

def depositETHTo (sender toAddr : Address) (value : Uint256) (data : Bytes) (s : State) :
    Result (State × List FinalizeDeposit) :=
  .ok (initiateETHDeposit sender toAddr value data s)

def setDeposits (l1Token l2Token : Address) (amount : Uint256) (s : State) : State :=
  {s with deposits :=
    Function.update s.deposits l1Token (Function.update (s.deposits l1Token) l2Token amount)}

def initiateERC20Deposit (l1Token l2Token fromAddr toAddr : Address) (amount : Uint256)
    (data : Bytes) (s : State) : Result (State × List FinalizeDeposit) := do
  let balances ← transferExact l1Token fromAddr setup.bridge amount s.balances
  let total ← add (s.deposits l1Token l2Token) amount
  return (setDeposits l1Token l2Token total {s with balances},
    [⟨l1Token, l2Token, fromAddr, toAddr, amount, data⟩])

def depositERC20 (sender l1Token l2Token : Address) (amount : Uint256) (data : Bytes) (s : State) :
    Result (State × List FinalizeDeposit) := do
  onlyEOA isContract sender
  initiateERC20Deposit setup l1Token l2Token sender sender amount data s

def depositERC20To (sender l1Token l2Token toAddr : Address) (amount : Uint256) (data : Bytes)
    (s : State) : Result (State × List FinalizeDeposit) :=
  initiateERC20Deposit setup l1Token l2Token sender toAddr amount data s

/-- The call of the receiver with the ETH; `accepts` is the answer of any receiver but the bridge.
-/
def sendETH (accepts : Bool) (toAddr : Address) (amount : Uint256) (s : State) :
    Result (State × List FinalizeDeposit) := do
  require (amount.toNat ≤ s.eth) "TransferHelper::safeTransferETH: ETH transfer failed"
  let s := {s with eth := s.eth - amount.toNat}
  if toAddr = setup.bridge then
    match receive isContract setup.bridge amount s with
    | .ok result => return result
    | .error _ => throw (.reason "TransferHelper::safeTransferETH: ETH transfer failed")
  else
    require (accepts = true) "TransferHelper::safeTransferETH: ETH transfer failed"
    return (s, [])

def finalizeETHWithdrawal (sender xDomainMessageSender : Address) (isContract : Address → Bool)
    (accepts : Bool) (toAddr : Address) (amount : Uint256) (s : State) :
    Result (State × List FinalizeDeposit) := do
  onlyFromCrossDomainAccount setup.messenger setup.l2TokenBridge sender xDomainMessageSender
  sendETH setup isContract accepts toAddr amount s

def finalizeERC20Withdrawal (sender xDomainMessageSender l1Token l2Token toAddr : Address)
    (amount : Uint256) (s : State) : Result State := do
  onlyFromCrossDomainAccount setup.messenger setup.l2TokenBridge sender xDomainMessageSender
  let rest ← sub (s.deposits l1Token l2Token) amount
  let s := setDeposits l1Token l2Token rest s
  let balances ← transferExact l1Token setup.bridge toAddr amount s.balances
  return {s with balances}

inductive Call where
  | receive
  | depositETH (data : Bytes)
  | depositETHTo (toAddr : Address) (data : Bytes)
  | depositERC20 (l1Token l2Token : Address) (amount : Uint256) (data : Bytes)
  | depositERC20To (l1Token l2Token toAddr : Address) (amount : Uint256) (data : Bytes)
  | donateETH
  | finalize (withdrawal : Withdrawal)

structure Context where
  sender : Address
  value : Uint256
  xDomainMessageSender : Address
  isContract : Address → Bool
  accepts : Bool

def nonPayable (ctx : Context) : Result Unit :=
  if ctx.value = 0 then .ok () else .error .bare

def exec (ctx : Context) (call : Call) (s : State) : Result (State × List FinalizeDeposit) :=
  match call with
  | .receive => receive ctx.isContract ctx.sender ctx.value s
  | .depositETH data => depositETH ctx.isContract ctx.sender ctx.value data s
  | .depositETHTo toAddr data => depositETHTo ctx.sender toAddr ctx.value data s
  | .depositERC20 l1Token l2Token amount data => do
    nonPayable ctx
    depositERC20 setup ctx.isContract ctx.sender l1Token l2Token amount data s
  | .depositERC20To l1Token l2Token toAddr amount data => do
    nonPayable ctx
    depositERC20To setup ctx.sender l1Token l2Token toAddr amount data s
  | .donateETH => .ok ({s with eth := s.eth + ctx.value.toNat}, [])
  | .finalize (.finalizeETHWithdrawal _ toAddr amount _) => do
    nonPayable ctx
    finalizeETHWithdrawal setup ctx.sender ctx.xDomainMessageSender ctx.isContract ctx.accepts
      toAddr amount s
  | .finalize (.finalizeERC20Withdrawal l1Token l2Token _ toAddr amount _) => do
    nonPayable ctx
    let s ← finalizeERC20Withdrawal setup ctx.sender ctx.xDomainMessageSender l1Token l2Token
      toAddr amount s
    return (s, [])

end L1StandardBridge

structure L2StandardERC20 where
  l1Token : Address
  l2Bridge : Address
  totalSupply : Uint256
  balances : Address → Uint256

namespace L2StandardERC20

def deploy (l2Bridge l1Token : Address) : L2StandardERC20 := ⟨l1Token, l2Bridge, 0, fun _ => 0⟩

def onlyL2Bridge (t : L2StandardERC20) (sender : Address) : Result Unit :=
  require (sender = t.l2Bridge) "Only L2 Bridge can mint and burn"

def mint (sender toAddr : Address) (amount : Uint256) (t : L2StandardERC20) :
    Result L2StandardERC20 := do
  t.onlyL2Bridge sender
  require (toAddr ≠ 0) "ERC20: mint to the zero address"
  let totalSupply ← add t.totalSupply amount
  let balance ← add (t.balances toAddr) amount
  return {t with totalSupply, balances := Function.update t.balances toAddr balance}

def burn (sender fromAddr : Address) (amount : Uint256) (t : L2StandardERC20) :
    Result L2StandardERC20 := do
  t.onlyL2Bridge sender
  require (fromAddr ≠ 0) "ERC20: burn from the zero address"
  require (amount.toNat ≤ (t.balances fromAddr).toNat) "ERC20: burn amount exceeds balance"
  let totalSupply ← sub t.totalSupply amount
  return {t with
    totalSupply
    balances := Function.update t.balances fromAddr (t.balances fromAddr - amount)}

def transfer (sender toAddr : Address) (amount : Uint256) (t : L2StandardERC20) :
    Result L2StandardERC20 := do
  require (sender ≠ 0) "ERC20: transfer from the zero address"
  require (toAddr ≠ 0) "ERC20: transfer to the zero address"
  require (amount.toNat ≤ (t.balances sender).toNat) "ERC20: transfer amount exceeds balance"
  let balances := Function.update t.balances sender (t.balances sender - amount)
  let balance ← add (balances toAddr) amount
  return {t with balances := Function.update balances toAddr balance}

inductive Call where
  | mint (toAddr : Address) (amount : Uint256)
  | burn (fromAddr : Address) (amount : Uint256)
  | transfer (toAddr : Address) (amount : Uint256)

def exec (sender : Address) (call : Call) (t : L2StandardERC20) : Result L2StandardERC20 :=
  match call with
  | .mint toAddr amount => t.mint sender toAddr amount
  | .burn fromAddr amount => t.burn sender fromAddr amount
  | .transfer toAddr amount => t.transfer sender toAddr amount

end L2StandardERC20

inductive Contract where
  | absent
  | standard (token : L2StandardERC20)
  | other

/-- What a contract that is not a standard token does when the bridge calls it; a call may also
revert. -/
structure Answers where
  supportsInterface : Bool
  l1Token : Result Address
  mint : Result Unit
  burn : Result Unit

namespace L2StandardBridge

abbrev State := Address → Contract

variable (answers : Answers)

/-- `ERC165Checker.supportsInterface` for the interface of standard tokens. -/
def supportsInterface : Contract → Bool
  | .absent => false
  | .standard _ => true
  | .other => answers.supportsInterface

def l1TokenOf : Contract → Result Address
  | .absent => .error .bare
  | .standard t => .ok t.l1Token
  | .other => answers.l1Token

def mint (toAddr : Address) (amount : Uint256) : Contract → Result Contract
  | .absent => .error .bare
  | .standard t => do
    let t ← t.mint L2_STANDARD_BRIDGE toAddr amount
    return .standard t
  | .other => do
    answers.mint
    return .other

def burn (fromAddr : Address) (amount : Uint256) : Contract → Result Contract
  | .absent => .error .bare
  | .standard t => do
    let t ← t.burn L2_STANDARD_BRIDGE fromAddr amount
    return .standard t
  | .other => do
    answers.burn
    return .other

def withdrawalMessage (l1Token l2Token fromAddr toAddr : Address) (amount : Uint256)
    (data : Bytes) : Withdrawal :=
  if l2Token = OVM_ETH then
    .finalizeETHWithdrawal fromAddr toAddr amount data
  else
    .finalizeERC20Withdrawal l1Token l2Token fromAddr toAddr amount data

def initiateWithdrawal (sender l2Token fromAddr toAddr : Address) (amount : Uint256) (data : Bytes)
    (s : State) : Result (State × List Withdrawal) := do
  let contract ← burn answers sender amount (s l2Token)
  let l1Token ← l1TokenOf answers contract
  return (Function.update s l2Token contract,
    [withdrawalMessage l1Token l2Token fromAddr toAddr amount data])

def withdraw (sender l2Token : Address) (amount : Uint256) (data : Bytes) (s : State) :
    Result (State × List Withdrawal) :=
  initiateWithdrawal answers sender l2Token sender sender amount data s

def withdrawTo (sender l2Token toAddr : Address) (amount : Uint256) (data : Bytes) (s : State) :
    Result (State × List Withdrawal) :=
  initiateWithdrawal answers sender l2Token sender toAddr amount data s

def accepts (l1Token : Address) (contract : Contract) : Result Bool := do
  if supportsInterface answers contract = true then
    let claimed ← l1TokenOf answers contract
    return decide (l1Token = claimed)
  else
    return false

/-- A deposit that the token does not accept is sent back, with the two accounts switched. -/
def finalizeDeposit (messenger l1TokenBridge sender xDomainMessageSender : Address)
    (answers : Answers) (m : FinalizeDeposit) (s : State) : Result (State × List Withdrawal) := do
  onlyFromCrossDomainAccount messenger l1TokenBridge sender xDomainMessageSender
  let accepted ← accepts answers m.l1Token (s m.l2Token)
  if accepted = true then
    let contract ← mint answers m.toAddr m.amount (s m.l2Token)
    return (Function.update s m.l2Token contract, [])
  else
    return (s, [.finalizeERC20Withdrawal m.l1Token m.l2Token m.toAddr m.fromAddr m.amount m.data])

inductive Call where
  | withdraw (l2Token : Address) (amount : Uint256) (data : Bytes)
  | withdrawTo (l2Token toAddr : Address) (amount : Uint256) (data : Bytes)
  | finalizeDeposit (m : FinalizeDeposit)

/-- What a call sees: its caller, whose message the messenger relays, and the answers of a token
that is not a standard one. -/
structure Context where
  sender : Address
  xDomainMessageSender : Address
  answers : Answers

def exec (messenger l1TokenBridge : Address) (ctx : Context) (call : Call) (s : State) :
    Result (State × List Withdrawal) :=
  match call with
  | .withdraw l2Token amount data => withdraw ctx.answers ctx.sender l2Token amount data s
  | .withdrawTo l2Token toAddr amount data =>
    withdrawTo ctx.answers ctx.sender l2Token toAddr amount data s
  | .finalizeDeposit m => finalizeDeposit messenger l1TokenBridge ctx.sender
      ctx.xDomainMessageSender ctx.answers m s

end L2StandardBridge

end Bridge
