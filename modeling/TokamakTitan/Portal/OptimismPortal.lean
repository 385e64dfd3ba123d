import TokamakTitan.Derive.Deposits
import TokamakTitan.Portal.ResourceMetering
import TokamakTitan.Rollup.Base

/-! Deposits through the portal on L1, and the log that a deposit leaves. -/
namespace Portal
open BigEndian Checked
open Derive (Log)
open Rollup (applyL1ToL2Alias)

abbrev Bytes := List UInt8

structure Message where
  sender : Address
  origin : Address
  value : Uint256
  gas : BitVec 64
  deriving DecidableEq

structure DepositArgs where
  recipient : Address
  value : Uint256
  gasLimit : BitVec 64
  isCreation : Bool
  data : Bytes
  deriving DecidableEq

structure TransactionDeposited where
  sender : Address
  recipient : Address
  version : Uint256
  opaqueData : Bytes
  deriving DecidableEq

def DEPOSIT_VERSION : Uint256 := 0

def boolByte (b : Bool) : UInt8 := if b then 1 else 0

def memoryGas (words : ℕ) : ℕ := 3 * words + words ^ 2 / 512

def depositor (msg : Message) : Address :=
  if msg.sender ≠ msg.origin then applyL1ToL2Alias msg.sender else msg.sender

def DepositArgs.opaqueData (args : DepositArgs) (mint : Uint256) : Bytes :=
  encode 32 mint.toNat ++ (encode 32 args.value.toNat ++ (encode 8 args.gasLimit.toNat ++
    (boolByte args.isCreation :: args.data)))

/-- A deposit. Of its gas only what the packed data and the burn take is counted. -/
def depositTransaction (powWad : ℤ → ℤ → Result ℤ) (block : Block) (msg : Message)
    (args : DepositArgs) (params : ResourceParams) :
    Result (ResourceParams × TransactionDeposited) :=
  if args.isCreation ∧ args.recipient ≠ 0 then
    .error (.reason "OptimismPortal: must send to address(0) when creating a contract")
  else
    let opaqueData := args.opaqueData msg.value
    if msg.gas.toNat < memoryGas (opaqueData.length / 32) then .error .bare
    else match metered powWad block args.gasLimit params with
      | .error e => .error e
      | .ok (params, burnt) =>
        if msg.gas.toNat < burnt then .error .bare
        else .ok (params, {
          sender := depositor msg
          recipient := args.recipient
          version := DEPOSIT_VERSION
          opaqueData })

def TransactionDeposited.log (event : TransactionDeposited) (portal : Address) (blockHash : Bytes32)
    (index : BitVec 64) : Log where
  address := portal
  topics := [Derive.depositEventABIHash, event.sender.setWidth 256, event.recipient.setWidth 256,
    event.version]
  data := Abi.encodeBytes [] event.opaqueData []
  blockHash
  index

theorem depositTransaction_eq_ok {powWad : ℤ → ℤ → Result ℤ} {block : Block} {msg : Message}
    {args : DepositArgs} {params next : ResourceParams} {event : TransactionDeposited}
    (h : depositTransaction powWad block msg args params = .ok (next, event)) :
    (args.isCreation = true → args.recipient = 0) ∧
      memoryGas ((args.opaqueData msg.value).length / 32) < 2 ^ 64 ∧
      event = {
        sender := depositor msg
        recipient := args.recipient
        version := DEPOSIT_VERSION
        opaqueData := args.opaqueData msg.value } := by
  unfold depositTransaction at h
  dsimp only at h
  split at h
  next => cases h
  next hcreation =>
    split at h
    next => cases h
    next hgas =>
      have hlt := msg.gas.isLt
      split at h
      next => cases h
      next =>
        split at h
        next => cases h
        next =>
          refine ⟨?_, by omega, (Prod.mk.inj (Except.ok.inj h)).2.symm⟩
          intro hc
          by_contra hne
          exact hcreation ⟨hc, hne⟩

theorem length_opaqueData (args : DepositArgs) (mint : Uint256) :
    (args.opaqueData mint).length = 73 + args.data.length := by
  simp [DepositArgs.opaqueData]
  omega

theorem length_lt_of_memoryGas {n : ℕ} (h : memoryGas (n / 32) < 2 ^ 64) : n < 2 ^ 62 := by
  have hwords : n / 32 < 2 ^ 57 := by
    by_contra hge
    have hsq : 2 ^ 57 * 2 ^ 57 ≤ (n / 32) * (n / 32) :=
      Nat.mul_le_mul (Nat.le_of_not_lt hge) (Nat.le_of_not_lt hge)
    rw [memoryGas, pow_two] at h
    omega
  omega

end Portal
