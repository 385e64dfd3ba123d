import Mathlib.Algebra.Order.Floor.Div
import TokamakTitan.Fees.GasPriceOracle
import TokamakTitan.L2Geth.StateTransition
import TokamakTitan.Library.Rlp

/-! The fees of l2geth: what a transaction costs on L1, from the cache of the oracle or from its
storage. Floats are read as rational numbers. -/
namespace L2Geth.Fees
open Checked (Address Uint256)
open Abi (Bytes)
open GasPriceOracle (Storage calldataGas)

/-- A conversion of whole floats to `uint64`. Outside of the range of the type it depends on the
implementation. -/
structure Conversion where
  uint64 : ℤ → BitVec 64
  exact : ∀ n : ℕ, n < 2 ^ 64 → (uint64 n).toNat = n

def Conversion.saturating (x : BitVec 64) : Conversion where
  uint64 n := if 0 ≤ n ∧ n < 2 ^ 64 then BitVec.ofNat 64 n.toNat else x
  exact n h := by
    rw [if_pos ⟨Int.natCast_nonneg n, by exact_mod_cast h⟩, Int.toNat_natCast, BitVec.toNat_ofNat,
      Nat.mod_eq_of_lt h]

inductive Error where
  | gasPriceTooLow
  | gasPriceTooHigh
  | transactionSigned
  deriving DecidableEq

structure TxData where
  accountNonce : BitVec 64
  price : ℕ
  gasLimit : BitVec 64
  recipient : Option Address
  amount : ℕ
  payload : Bytes
  v : ℕ
  r : ℕ
  s : ℕ
  deriving DecidableEq

def newTransaction (nonce : BitVec 64) (recipient : Option Address) (amount : ℕ)
    (gasLimit : BitVec 64) (gasPrice : ℕ) (data : Bytes) : TxData where
  accountNonce := nonce
  price := gasPrice
  gasLimit
  recipient
  amount
  payload := data
  v := 0
  r := 0
  s := 0

def encodeRecipient : Option Address → Bytes
  | none => Rlp.encodeString []
  | some a => Rlp.encodeString (BigEndian.encode 20 a.toNat)

def TxData.encodeRLP (tx : TxData) : Bytes :=
  Rlp.encodeList [Rlp.encodeString (Rlp.uintBytes tx.accountNonce.toNat),
      Rlp.encodeString (Rlp.uintBytes tx.price),
      Rlp.encodeString (Rlp.uintBytes tx.gasLimit.toNat),
      encodeRecipient tx.recipient,
      Rlp.encodeString (Rlp.uintBytes tx.amount),
      Rlp.encodeString tx.payload,
      Rlp.encodeString (Rlp.uintBytes tx.v),
      Rlp.encodeString (Rlp.uintBytes tx.r),
      Rlp.encodeString (Rlp.uintBytes tx.s)]

/-- The encoding without the bytes of an empty signature. The header counts them. -/
def rlpEncode (tx : TxData) : Except Error Bytes :=
  let raw := tx.encodeRLP
  if tx.r ≠ 0 ∨ tx.v ≠ 0 ∨ tx.s ≠ 0 then .error .transactionSigned
  else .ok (raw.take (raw.length - 3))

def asTransaction (msg : Message) : TxData :=
  newTransaction msg.nonce msg.recipient msg.value msg.gas msg.gasPrice msg.data

def copyTransaction (tx : TxData) : TxData :=
  newTransaction tx.accountNonce tx.recipient tx.amount tx.gasLimit tx.price tx.payload

def countByte : BitVec 64 × BitVec 64 → UInt8 → BitVec 64 × BitVec 64
  | (zeroes, ones), byte => if byte = 0 then (zeroes + 1, ones) else (zeroes, ones + 1)

variable (data : Bytes)

def zeroesAndOnes : BitVec 64 × BitVec 64 := data.foldl countByte (0, 0)

def txDataZeroGas : BitVec 64 := 4

def txDataNonZeroGasEIP2028 : BitVec 64 := 16

def calculateL1GasUsed (overhead : ℕ) : ℕ :=
  let (zeroes, ones) := zeroesAndOnes data
  let zeroesGas := zeroes * txDataZeroGas
  let onesGas := (ones + 68) * txDataNonZeroGasEIP2028
  (zeroesGas + onesGas).toNat + overhead

def scaleDecimals (scalar decimals : ℕ) : ℚ := scalar / (10 ^ decimals : ℕ)

section Fees

variable (conv : Conversion)

/-- The product with a float, rounded up. Of the number only the low 64 bits are read. -/
def mulByFloat (num : ℕ) (float : ℚ) : ℕ :=
  let n : ℕ := num % 2 ^ 64
  (conv.uint64 ⌈(n : ℚ) * float⌉).toNat

def calculateL1Fee (data : Bytes) (overhead l1GasPrice : ℕ) (scalar : ℚ) : ℕ :=
  mulByFloat conv (calculateL1GasUsed data overhead * l1GasPrice) scalar

structure RollupOracle where
  l1GasPrice : ℕ
  l2GasPrice : ℕ
  overhead : ℕ
  scalar : ℚ
  deriving DecidableEq

def calculateTotalFee (tx : TxData) (gpo : RollupOracle) : Except Error ℕ := do
  let raw ← rlpEncode (copyTransaction tx)
  let l1Fee := calculateL1Fee conv raw gpo.overhead gpo.l1GasPrice gpo.scalar
  let l2Fee := tx.price * tx.gasLimit.toNat
  return l1Fee + l2Fee

def l2GasPriceOracleOwnerSlot : ℕ := 0

def l2GasPriceSlot : ℕ := 1

def l1GasPriceSlot : ℕ := 2

def overheadSlot : ℕ := 3

def scalarSlot : ℕ := 4

def decimalsSlot : ℕ := 5

/-- The L1 gas price, the overhead and the scalar in the storage of the oracle. -/
def readGPOStorageSlots (state : Storage) : ℕ × ℕ × ℚ :=
  ((state.getState l1GasPriceSlot).toNat, (state.getState overheadSlot).toNat,
    scaleDecimals (state.getState scalarSlot).toNat (state.getState decimalsSlot).toNat)

def calculateL1MsgFee (msg : Message) (state : Storage) : Except Error ℕ := do
  let raw ← rlpEncode (asTransaction msg)
  let (l1GasPrice, overhead, scalar) := readGPOStorageSlots state
  return calculateL1Fee conv raw overhead l1GasPrice scalar

/-- The gas price of a user is checked against the expected one, with a buffer below and a limit
above. -/
def paysEnough (userGasPrice expectedGasPrice : ℕ) (thresholdUp thresholdDown : Option ℚ) :
    Except Error Unit :=
  let fee := match thresholdDown with
    | some float => mulByFloat conv expectedGasPrice float
    | none => expectedGasPrice
  if userGasPrice < fee then .error .gasPriceTooLow
  else match thresholdUp with
    | some float =>
      let overpaying : ℤ := userGasPrice - expectedGasPrice
      if overpaying > mulByFloat conv expectedGasPrice float then .error .gasPriceTooHigh
      else .ok ()
    | none => .ok ()

end Fees

theorem foldl_countByte (zeroes ones : BitVec 64) :
    data.foldl countByte (zeroes, ones) =
      (zeroes + BitVec.ofNat 64 (data.countP (· = 0)),
        ones + BitVec.ofNat 64 (data.countP (· ≠ 0))) := by
  induction data generalizing zeroes ones with
  | nil => simp
  | cons byte rest ih =>
    rw [List.foldl_cons, countByte]
    by_cases hbyte : byte = 0
    · rw [if_pos hbyte, ih]
      simp [hbyte, BitVec.ofNat_add, BitVec.add_comm, BitVec.add_assoc]
    · rw [if_neg hbyte, ih]
      simp [hbyte, BitVec.ofNat_add, BitVec.add_comm, BitVec.add_assoc]

theorem calculateL1GasUsed_eq (overhead : ℕ) :
    calculateL1GasUsed data overhead = (calldataGas data + 68 * 16) % 2 ^ 64 + overhead := by
  have hcount : zeroesAndOnes data =
      (BitVec.ofNat 64 (data.countP (· = 0)), BitVec.ofNat 64 (data.countP (· ≠ 0))) := by
    rw [zeroesAndOnes, foldl_countByte]
    simp
  have hzero : txDataZeroGas.toNat = 4 := rfl
  have hone : txDataNonZeroGasEIP2028.toNat = 16 := rfl
  have hpad : (68 : BitVec 64).toNat = 68 := rfl
  simp only [calculateL1GasUsed, hcount, calldataGas, BitVec.toNat_add, BitVec.toNat_mul,
    BitVec.toNat_ofNat, hzero, hone, hpad]
  omega

theorem ceil_mul_scaleDecimals (n scalar decimals : ℕ) :
    ⌈(n : ℚ) * scaleDecimals scalar decimals⌉ = ((n * scalar) ⌈/⌉ 10 ^ decimals : ℕ) := by
  have hpos : 0 < 10 ^ decimals := Nat.pow_pos (by decide)
  have hquot : (n : ℚ) * scaleDecimals scalar decimals =
      ((n * scalar : ℕ) : ℚ) / (10 ^ decimals : ℕ) := by
    rw [scaleDecimals, Nat.cast_mul, mul_div_assoc]
  have hnonneg : (0 : ℚ) ≤ ((n * scalar : ℕ) : ℚ) / (10 ^ decimals : ℕ) := by positivity
  rw [hquot, ← Int.natCast_ceil_eq_ceil hnonneg]
  congr 1
  apply eq_of_forall_ge_iff
  intro k
  rw [Nat.ceil_le, div_le_iff₀ (by exact_mod_cast hpos), ceilDiv_le_iff_le_mul hpos,
    Nat.mul_comm (10 ^ decimals)]
  exact_mod_cast Iff.rfl

theorem mulByFloat_scaleDecimals (conv : Conversion) (num scalar decimals : ℕ) :
    mulByFloat conv num (scaleDecimals scalar decimals) =
      (conv.uint64 ((num % 2 ^ 64 * scalar) ⌈/⌉ 10 ^ decimals : ℕ)).toNat := by
  rw [mulByFloat, ceil_mul_scaleDecimals]

end L2Geth.Fees
