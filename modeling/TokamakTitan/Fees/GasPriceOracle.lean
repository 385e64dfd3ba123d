import TokamakTitan.Library.Abi
import TokamakTitan.Library.Checked

/-! The predeploy `OVM_GasPriceOracle`: the parameters of the fee, who may change them, and the L1
fee of an unsigned transaction. -/
namespace GasPriceOracle
open Checked
open Abi (Bytes)

/-- The variables of the contract, in the order of their slots; the owner is that of `Ownable`. -/
structure Storage where
  owner : Address
  gasPrice : Uint256
  l1BaseFee : Uint256
  overhead : Uint256
  scalar : Uint256
  decimals : Uint256
  deriving DecidableEq

def Storage.getState (s : Storage) : ℕ → Uint256
  | 0 => s.owner.setWidth 256
  | 1 => s.gasPrice
  | 2 => s.l1BaseFee
  | 3 => s.overhead
  | 4 => s.scalar
  | 5 => s.decimals
  | _ => 0

inductive Call where
  | setGasPrice (value : Uint256)
  | setL1BaseFee (value : Uint256)
  | setOverhead (value : Uint256)
  | setScalar (value : Uint256)
  | setDecimals (value : Uint256)
  | transferOwnership (newOwner : Address)
  | renounceOwnership
  deriving DecidableEq

variable (sender : Address)

def onlyOwner (s : Storage) (body : Result Storage) : Result Storage := do
  require (s.owner = sender) "Ownable: caller is not the owner"
  body

def setGasPrice (gasPrice : Uint256) (s : Storage) : Result Storage :=
  onlyOwner sender s (.ok {s with gasPrice})

def setL1BaseFee (baseFee : Uint256) (s : Storage) : Result Storage :=
  onlyOwner sender s (.ok {s with l1BaseFee := baseFee})

def setOverhead (overhead : Uint256) (s : Storage) : Result Storage :=
  onlyOwner sender s (.ok {s with overhead})

def setScalar (scalar : Uint256) (s : Storage) : Result Storage :=
  onlyOwner sender s (.ok {s with scalar})

def setDecimals (decimals : Uint256) (s : Storage) : Result Storage :=
  onlyOwner sender s (.ok {s with decimals})

def transferOwnership (sender newOwner : Address) (s : Storage) : Result Storage :=
  onlyOwner sender s do
    require (newOwner ≠ 0) "Ownable: new owner is the zero address"
    return {s with owner := newOwner}

def renounceOwnership (s : Storage) : Result Storage :=
  onlyOwner sender s (.ok {s with owner := 0})

def perform : Call → Storage → Result Storage
  | .setGasPrice value => setGasPrice sender value
  | .setL1BaseFee value => setL1BaseFee sender value
  | .setOverhead value => setOverhead sender value
  | .setScalar value => setScalar sender value
  | .setDecimals value => setDecimals sender value
  | .transferOwnership newOwner => transferOwnership sender newOwner
  | .renounceOwnership => renounceOwnership sender

variable {s t : Storage} {sender : Address}

theorem owner_of_onlyOwner {body : Result Storage} (h : onlyOwner sender s body = .ok t) :
    s.owner = sender := by
  rw [onlyOwner, bind_eq_ok] at h
  obtain ⟨u, hu, _⟩ := h
  exact require_eq_ok.mp hu

theorem owner_of_perform {call : Call} (h : perform sender call s = .ok t) : s.owner = sender := by
  cases call <;> exact owner_of_onlyOwner h

def sumGas : Bytes → Uint256 → Result Uint256
  | [], total => .ok total
  | byte :: rest, total => do
    let total ← add total (if byte = 0 then 4 else 16)
    sumGas rest total

def Storage.getL1GasUsed (s : Storage) (data : Bytes) : Result Uint256 := do
  let total ← sumGas data 0
  let unsigned ← add total s.overhead
  add unsigned (68 * 16)

def pow (base exponent : Uint256) : Result Uint256 :=
  if base.toNat ^ exponent.toNat < 2 ^ 256 then
    .ok (BitVec.ofNat 256 (base.toNat ^ exponent.toNat))
  else .error (.panic arithmeticPanic)

def Storage.getL1Fee (s : Storage) (data : Bytes) : Result Uint256 := do
  let l1GasUsed ← s.getL1GasUsed data
  let l1Fee ← mul l1GasUsed s.l1BaseFee
  let divisor ← pow 10 s.decimals
  let unscaled ← mul l1Fee s.scalar
  div unscaled divisor

def calldataGas (data : Bytes) : ℕ := data.countP (· = 0) * 4 + data.countP (· ≠ 0) * 16

variable {data : Bytes}

theorem sumGas_eq_ok {total sum : Uint256} (h : sumGas data total = .ok sum) :
    sum.toNat = total.toNat + calldataGas data := by
  induction data generalizing total with
  | nil =>
    cases h
    rfl
  | cons byte rest ih =>
    rw [sumGas, bind_eq_ok] at h
    obtain ⟨next, hnext, h⟩ := h
    have hrest := ih h
    rw [add_eq_ok] at hnext
    by_cases hbyte : byte = 0
    · have hgas : calldataGas (byte :: rest) = 4 + calldataGas rest := by
        simp [calldataGas, hbyte]
        omega
      have hfour : (4 : Uint256).toNat = 4 := rfl
      rw [if_pos hbyte] at hnext
      omega
    · have hgas : calldataGas (byte :: rest) = 16 + calldataGas rest := by
        simp [calldataGas, hbyte]
        omega
      have hsixteen : (16 : Uint256).toNat = 16 := rfl
      rw [if_neg hbyte] at hnext
      omega

theorem Storage.getL1GasUsed_eq_ok {gas : Uint256} (h : s.getL1GasUsed data = .ok gas) :
    gas.toNat = calldataGas data + s.overhead.toNat + 68 * 16 := by
  rw [getL1GasUsed, bind_eq_ok] at h
  obtain ⟨total, htotal, h⟩ := h
  rw [bind_eq_ok] at h
  obtain ⟨unsigned, hunsigned, h⟩ := h
  have hsum := sumGas_eq_ok htotal
  rw [add_eq_ok] at hunsigned h
  have hpad : (68 * 16 : Uint256).toNat = 68 * 16 := rfl
  have hzero : (0 : Uint256).toNat = 0 := rfl
  omega

theorem pow_eq_ok {a b c : Uint256} (h : pow a b = .ok c) : c.toNat = a.toNat ^ b.toNat := by
  unfold pow at h
  split at h
  next hlt =>
    cases h
    rw [BitVec.toNat_ofNat, Nat.mod_eq_of_lt hlt]
  next => cases h

theorem Storage.getL1Fee_eq_ok {fee : Uint256} (h : s.getL1Fee data = .ok fee) :
    ∃ gas, s.getL1GasUsed data = .ok gas ∧
      fee.toNat = gas.toNat * s.l1BaseFee.toNat * s.scalar.toNat / 10 ^ s.decimals.toNat := by
  rw [getL1Fee, bind_eq_ok] at h
  obtain ⟨gas, hgas, h⟩ := h
  rw [bind_eq_ok] at h
  obtain ⟨l1Fee, hl1Fee, h⟩ := h
  rw [bind_eq_ok] at h
  obtain ⟨divisor, hdivisor, h⟩ := h
  rw [bind_eq_ok] at h
  obtain ⟨unscaled, hunscaled, h⟩ := h
  rw [mul_eq_ok] at hl1Fee hunscaled
  have hpow : divisor.toNat = 10 ^ s.decimals.toNat := pow_eq_ok hdivisor
  have hpos : 0 < divisor.toNat := by
    rw [hpow]
    exact Nat.pow_pos (by decide)
  rw [div_eq_ok hpos] at h
  refine ⟨gas, hgas, ?_⟩
  rw [← h, ← hunscaled, ← hl1Fee, hpow]

end GasPriceOracle
