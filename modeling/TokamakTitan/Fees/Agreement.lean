import TokamakTitan.Fees.RollupFee

/-! The L1 fee in three languages: the contract quotes it, clients estimate it, and the node charges
it. The node alone rounds the quotient up. -/

/-! `core-utils/src/optimism/fees.ts`. A number is taken into a `BigNumber` only if it is safe, and
below that bound the arithmetic of numbers is exact. -/
namespace CoreUtils
open Abi (Bytes)

def maxSafe : ℕ := 0x1fffffffffffff

def bigNumberFrom (value : ℕ) : Option ℕ := if value ≥ maxSafe then none else some value

def txDataZeroGas : ℕ := 4

def txDataNonZeroGasEIP2028 : ℕ := 16

def countByte : ℕ × ℕ → UInt8 → ℕ × ℕ
  | (zeros, ones), byte => if byte = 0 then (zeros + 1, ones) else (zeros, ones + 1)

variable (data : Bytes)

def zeroesAndOnes : ℕ × ℕ := data.foldl countByte (0, 0)

def scaleDecimals (value decimals : ℕ) : ℕ :=
  let divisor := 10 ^ decimals
  value / divisor

def calculateL1GasUsed (overhead : ℕ) : Option ℕ := do
  let (zeroes, ones) := zeroesAndOnes data
  let zeroesCost := zeroes * txDataZeroGas
  let onesCost := (ones + 68) * txDataNonZeroGasEIP2028
  let gas ← bigNumberFrom onesCost
  let zeroesGas ← bigNumberFrom zeroesCost
  return gas + zeroesGas + overhead

def calculateL1Fee (overhead l1GasPrice scalar decimals : ℕ) : Option ℕ := do
  let l1GasUsed ← calculateL1GasUsed data overhead
  let l1Fee := l1GasUsed * l1GasPrice
  let scaled := l1Fee * scalar
  return scaleDecimals scaled decimals

theorem foldl_countByte (zeros ones : ℕ) :
    data.foldl countByte (zeros, ones) =
      (zeros + data.countP (· = 0), ones + data.countP (· ≠ 0)) := by
  induction data generalizing zeros ones with
  | nil => simp
  | cons byte rest ih =>
    rw [List.foldl_cons, countByte]
    by_cases hbyte : byte = 0
    · rw [if_pos hbyte, ih]
      simp [hbyte, Nat.add_comm, Nat.add_assoc]
    · rw [if_neg hbyte, ih]
      simp [hbyte, Nat.add_comm, Nat.add_assoc]

def Short : Prop :=
  (data.countP (· ≠ 0) + 68) * 16 < maxSafe ∧ data.countP (· = 0) * 4 < maxSafe

instance (data : Bytes) : Decidable (Short data) := inferInstanceAs (Decidable (_ ∧ _))

theorem calculateL1GasUsed_eq (overhead : ℕ) :
    calculateL1GasUsed data overhead =
      if Short data then some (GasPriceOracle.calldataGas data + overhead + 68 * 16) else none := by
  have hcount : zeroesAndOnes data = (data.countP (· = 0), data.countP (· ≠ 0)) := by
    rw [zeroesAndOnes, foldl_countByte]
    simp
  simp only [calculateL1GasUsed, hcount, txDataZeroGas, txDataNonZeroGasEIP2028, bigNumberFrom]
  by_cases hones : (data.countP (· ≠ 0) + 68) * 16 ≥ maxSafe
  · have hlong : ¬ Short data := fun hshort => absurd hshort.1 (Nat.not_lt.mpr hones)
    rw [if_pos hones, if_neg hlong]
    rfl
  · by_cases hzeroes : data.countP (· = 0) * 4 ≥ maxSafe
    · have hlong : ¬ Short data := fun hshort => absurd hshort.2 (Nat.not_lt.mpr hzeroes)
      rw [if_neg hones, if_pos hzeroes, if_neg hlong]
      rfl
    · have hshort : Short data := ⟨Nat.not_le.mp hones, Nat.not_le.mp hzeroes⟩
      rw [if_neg hones, if_neg hzeroes, if_pos hshort]
      simp only [GasPriceOracle.calldataGas, Option.bind_eq_bind, Option.bind_some, pure]
      congr 1
      omega

end CoreUtils

namespace L2Geth.Fees
open Abi (Bytes)
open Checked (Uint256)
open GasPriceOracle (Storage calldataGas)
open CoreUtils (Short)

def chargedFee (conv : Conversion) (s : Storage) (data : Bytes) : ℕ :=
  calculateL1Fee conv data s.overhead.toNat s.l1BaseFee.toNat
    (scaleDecimals s.scalar.toNat s.decimals.toNat)

/-- Contract, node and clients agree on the gas, and on the fee up to one wei. -/
structure Agree (conv : Conversion) (s : Storage) (data : Bytes) (gas fee : Uint256) : Prop where
  gasUsed : s.getL1GasUsed data = .ok gas
  nodeGasUsed : calculateL1GasUsed data s.overhead.toNat = gas.toNat
  clientGasUsed : CoreUtils.calculateL1GasUsed data s.overhead.toNat = some gas.toNat
  clientFee : CoreUtils.calculateL1Fee data s.overhead.toNat s.l1BaseFee.toNat s.scalar.toNat
    s.decimals.toNat = some fee.toNat
  nodeFee : chargedFee conv s data = fee.toNat ∨ chargedFee conv s data = fee.toNat + 1

def l1Gas (s : Storage) (data : Bytes) : ℕ := calldataGas data + s.overhead.toNat + 68 * 16

/-- The costs are safe numbers for clients, the product of gas and base fee fits into the 64 bits
that the node reads of it, and the fee, rounded up, into the 64 bits that it returns. -/
def Fits (s : Storage) (data : Bytes) : Prop :=
  Short data ∧ l1Gas s data * s.l1BaseFee.toNat < 2 ^ 64 ∧
    (l1Gas s data * s.l1BaseFee.toNat * s.scalar.toNat) ⌈/⌉ 10 ^ s.decimals.toNat < 2 ^ 64

instance (s : Storage) (data : Bytes) : Decidable (Fits s data) :=
  inferInstanceAs (Decidable (_ ∧ _))

/-- What the node has before it converts to 64 bits: of the product of gas and price it reads the
low 64 bits only. -/
def truncatedFee (s : Storage) (data : Bytes) : ℕ :=
  (l1Gas s data * s.l1BaseFee.toNat % 2 ^ 64 * s.scalar.toNat) ⌈/⌉ 10 ^ s.decimals.toNat

section Agreement

variable {conv : Conversion} {s : Storage} {data : Bytes} {gas fee : Uint256}

theorem calldataGas_lt_of_short (h : Short data) : calldataGas data + 68 * 16 < 2 ^ 64 := by
  have hones := h.1
  have hzeroes := h.2
  simp only [CoreUtils.maxSafe] at hones hzeroes
  unfold calldataGas
  omega

theorem calculateL1GasUsed_of_short (h : Short data) :
    calculateL1GasUsed data s.overhead.toNat = l1Gas s data := by
  rw [calculateL1GasUsed_eq, Nat.mod_eq_of_lt (calldataGas_lt_of_short h), l1Gas]
  omega

theorem chargedFee_of_short (h : Short data) :
    chargedFee conv s data = (conv.uint64 (truncatedFee s data)).toNat := by
  rw [chargedFee, calculateL1Fee, calculateL1GasUsed_of_short h, mulByFloat_scaleDecimals,
    truncatedFee]

theorem chargedFee_eq_truncatedFee (h : Short data) (hlt : truncatedFee s data < 2 ^ 64) :
    chargedFee conv s data = truncatedFee s data := by
  rw [chargedFee_of_short h, conv.exact _ hlt]

theorem ceilDiv_le_div_succ (a : ℕ) {b : ℕ} (hb : 0 < b) : a ⌈/⌉ b ≤ a / b + 1 := by
  rw [ceilDiv_le_iff_le_mul hb]
  exact (Nat.lt_mul_div_succ a hb).le

theorem ceilDiv_le_ceilDiv {a a' b : ℕ} (hb : 0 < b) (h : a ≤ a') : a ⌈/⌉ b ≤ a' ⌈/⌉ b := by
  rw [ceilDiv_le_iff_le_mul hb]
  exact h.trans ((ceilDiv_le_iff_le_mul hb).mp le_rfl)

theorem fee_eq_div (h : s.getL1Fee data = .ok fee) :
    fee.toNat = l1Gas s data * s.l1BaseFee.toNat * s.scalar.toNat / 10 ^ s.decimals.toNat := by
  obtain ⟨gas, hgas, hfee⟩ := Storage.getL1Fee_eq_ok h
  rw [hfee, Storage.getL1GasUsed_eq_ok hgas, l1Gas]

theorem truncatedFee_le (h : s.getL1Fee data = .ok fee) : truncatedFee s data ≤ fee.toNat + 1 := by
  have hpos : 0 < 10 ^ s.decimals.toNat := Nat.pow_pos (by decide)
  have hmod := Nat.mod_le (l1Gas s data * s.l1BaseFee.toNat) (2 ^ 64)
  rw [fee_eq_div h]
  exact (ceilDiv_le_ceilDiv hpos (Nat.mul_le_mul_right _ hmod)).trans (ceilDiv_le_div_succ _ hpos)

theorem Conversion.saturating_of_le (x : BitVec 64) {n : ℕ} (h : 2 ^ 64 ≤ n) :
    (saturating x).uint64 n = x := by
  have hrange : ¬ ((0 : ℤ) ≤ n ∧ (n : ℤ) < 2 ^ 64) := by
    rintro ⟨_, hlt⟩
    have hn : n < 2 ^ 64 := by exact_mod_cast hlt
    omega
  simp only [saturating, if_neg hrange]

theorem short_of_agree (h : Agree conv s data gas fee) : Short data := by
  have hgas := h.clientGasUsed
  rw [CoreUtils.calculateL1GasUsed_eq] at hgas
  by_contra hshort
  rw [if_neg hshort] at hgas
  cases hgas

theorem truncatedFee_lt_of_agree (h : ∀ conv, ∃ gas, Agree conv s data gas fee) :
    truncatedFee s data < 2 ^ 64 := by
  by_contra hle
  rw [Nat.not_lt] at hle
  have hvalue (x : BitVec 64) : x.toNat = fee.toNat ∨ x.toNat = fee.toNat + 1 := by
    obtain ⟨gas, hagree⟩ := h (Conversion.saturating x)
    have hfee := hagree.nodeFee
    rw [chargedFee_of_short (short_of_agree hagree), Conversion.saturating_of_le x hle] at hfee
    exact hfee
  -- Three values out of range cannot all be one of two.
  have hzero : (0 : BitVec 64).toNat = 0 := rfl
  have hone : (1 : BitVec 64).toNat = 1 := rfl
  have htwo : (2 : BitVec 64).toNat = 2 := rfl
  have := hvalue 0
  have := hvalue 1
  have := hvalue 2
  omega

theorem agree_of_exact (h : s.getL1Fee data = .ok fee) (hshort : Short data)
    (hle : fee.toNat ≤ truncatedFee s data) (hlt : truncatedFee s data < 2 ^ 64) :
    ∃ gas, Agree conv s data gas fee := by
  obtain ⟨gas, hgas, _⟩ := Storage.getL1Fee_eq_ok h
  have htotal : gas.toNat = l1Gas s data := Storage.getL1GasUsed_eq_ok hgas
  have hupper := truncatedFee_le h
  have hclient : CoreUtils.calculateL1GasUsed data s.overhead.toNat = some gas.toNat := by
    rw [CoreUtils.calculateL1GasUsed_eq, if_pos hshort, htotal, l1Gas]
  refine ⟨gas, hgas, ?_, hclient, ?_, ?_⟩
  · rw [calculateL1GasUsed_of_short hshort, htotal]
  · rw [CoreUtils.calculateL1Fee, hclient, fee_eq_div h, ← htotal]
    rfl
  · rw [chargedFee_eq_truncatedFee hshort hlt]
    omega

theorem chargedFee_le_chargedFee {baseFee : Uint256} (hshort : Short data)
    (hle : baseFee.toNat ≤ s.l1BaseFee.toNat) (hfits : l1Gas s data * s.l1BaseFee.toNat < 2 ^ 64)
    (hlt : truncatedFee s data < 2 ^ 64) :
    chargedFee conv {s with l1BaseFee := baseFee} data ≤ chargedFee conv s data := by
  have hpos : 0 < 10 ^ s.decimals.toNat := Nat.pow_pos (by decide)
  have hproduct : l1Gas s data * baseFee.toNat ≤ l1Gas s data * s.l1BaseFee.toNat :=
    Nat.mul_le_mul_left _ hle
  have htruncated : truncatedFee {s with l1BaseFee := baseFee} data ≤ truncatedFee s data := by
    apply ceilDiv_le_ceilDiv hpos
    apply Nat.mul_le_mul_right
    change l1Gas s data * baseFee.toNat % 2 ^ 64 ≤ _
    rw [Nat.mod_eq_of_lt hfits, Nat.mod_eq_of_lt (by omega)]
    exact hproduct
  rw [chargedFee_eq_truncatedFee hshort hlt, chargedFee_eq_truncatedFee hshort (by omega)]
  exact htruncated

theorem truncatedFee_of_lt (h : l1Gas s data * s.l1BaseFee.toNat < 2 ^ 64) :
    truncatedFee s data =
      (l1Gas s data * s.l1BaseFee.toNat * s.scalar.toNat) ⌈/⌉ 10 ^ s.decimals.toNat := by
  rw [truncatedFee, Nat.mod_eq_of_lt h]

theorem div_le_ceilDiv (a : ℕ) {b : ℕ} (hb : 0 < b) : a / b ≤ a ⌈/⌉ b :=
  Nat.div_le_of_le_mul ((ceilDiv_le_iff_le_mul hb).mp le_rfl)

/-- Cutting off the product costs more than a wei, so that the fee of the node falls short. -/
theorem truncatedFee_lt_fee (h : s.getL1Fee data = .ok fee)
    (hscalar : 2 * 10 ^ s.decimals.toNat ≤ 2 ^ 64 * s.scalar.toNat)
    (hcut : 2 ^ 64 ≤ l1Gas s data * s.l1BaseFee.toNat) : truncatedFee s data < fee.toNat := by
  have hpos : 0 < 10 ^ s.decimals.toNat := Nat.pow_pos (by decide)
  have hupper := ceilDiv_le_div_succ
    (l1Gas s data * s.l1BaseFee.toNat % 2 ^ 64 * s.scalar.toNat) hpos
  have hsplit : l1Gas s data * s.l1BaseFee.toNat % 2 ^ 64 + 2 ^ 64 ≤
      l1Gas s data * s.l1BaseFee.toNat := by
    omega
  rw [fee_eq_div h, truncatedFee]
  apply lt_of_le_of_lt hupper
  rw [Nat.lt_iff_add_one_le, Nat.add_assoc, Nat.le_div_iff_mul_le hpos]
  calc _ = l1Gas s data * s.l1BaseFee.toNat % 2 ^ 64 * s.scalar.toNat / 10 ^ s.decimals.toNat *
          10 ^ s.decimals.toNat + 2 * 10 ^ s.decimals.toNat := Nat.add_mul _ _ _
    _ ≤ l1Gas s data * s.l1BaseFee.toNat % 2 ^ 64 * s.scalar.toNat + 2 ^ 64 * s.scalar.toNat :=
        Nat.add_le_add (Nat.div_mul_le_self _ _) hscalar
    _ = (l1Gas s data * s.l1BaseFee.toNat % 2 ^ 64 + 2 ^ 64) * s.scalar.toNat :=
        (Nat.add_mul _ _ _).symm
    _ ≤ _ := Nat.mul_le_mul_right _ hsplit

/-- Where the contract quotes a fee and everything fits, the node and the clients agree with it,
however the platform converts floats, and the fee of the node is monotone up to the base fee. Unless
the scalar is so small that `2 ^ 64` cost less than two wei, they agree only there. -/
theorem l1_fee_agreement_iff (s : Storage) (data : Bytes) (fee : Uint256)
    (h : s.getL1Fee data = .ok fee) :
    (Fits s data → (∀ conv, ∃ gas, Agree conv s data gas fee) ∧
      ∀ (conv : Conversion) (low high : Uint256), low.toNat ≤ high.toNat →
        high.toNat ≤ s.l1BaseFee.toNat →
        chargedFee conv {s with l1BaseFee := low} data ≤
          chargedFee conv {s with l1BaseFee := high} data) ∧
    (2 * 10 ^ s.decimals.toNat ≤ 2 ^ 64 * s.scalar.toNat →
      (∀ conv, ∃ gas, Agree conv s data gas fee) → Fits s data) := by
  have hpos : 0 < 10 ^ s.decimals.toNat := Nat.pow_pos (by decide)
  constructor
  · rintro ⟨hshort, hproduct, hlt⟩
    constructor
    · intro conv
      rw [← truncatedFee_of_lt hproduct] at hlt
      refine agree_of_exact h hshort ?_ hlt
      rw [fee_eq_div h, truncatedFee_of_lt hproduct]
      exact div_le_ceilDiv _ hpos
    · intro conv low high hle hhigh
      have hproducts : l1Gas s data * high.toNat ≤ l1Gas s data * s.l1BaseFee.toNat :=
        Nat.mul_le_mul_left _ hhigh
      have hfits : l1Gas {s with l1BaseFee := high} data * high.toNat < 2 ^ 64 :=
        lt_of_le_of_lt hproducts hproduct
      refine chargedFee_le_chargedFee (s := {s with l1BaseFee := high}) hshort hle hfits ?_
      rw [truncatedFee_of_lt hfits]
      exact lt_of_le_of_lt (ceilDiv_le_ceilDiv hpos (Nat.mul_le_mul_right _ hproducts)) hlt
  · intro hscalar hall
    have hlt := truncatedFee_lt_of_agree hall
    obtain ⟨gas, hagree⟩ := hall (Conversion.saturating 0)
    have hshort := short_of_agree hagree
    have hfee := hagree.nodeFee
    rw [chargedFee_eq_truncatedFee hshort hlt] at hfee
    have hproduct : l1Gas s data * s.l1BaseFee.toNat < 2 ^ 64 := by
      by_contra hcut
      have := truncatedFee_lt_fee h hscalar (Nat.not_lt.mp hcut)
      omega
    rw [truncatedFee_of_lt hproduct] at hlt
    exact ⟨hshort, hproduct, hlt⟩

end Agreement

def deployedOracle : Storage where
  owner := 0xf1
  gasPrice := 1
  l1BaseFee := 30000000000
  overhead := 2750
  scalar := 1500001
  decimals := 6

theorem l1_fee_agreement_deployed :
    deployedOracle.getL1Fee [0xf8, 0x00, 0x01] = .ok 174330116220000 ∧
    Fits deployedOracle [0xf8, 0x00, 0x01] ∧
    (∀ conv, ∃ gas, Agree conv deployedOracle [0xf8, 0x00, 0x01] gas 174330116220000) ∧
    ∀ (conv : Conversion) (low high : Uint256), low.toNat ≤ high.toNat →
      high.toNat ≤ 30000000000 →
      chargedFee conv {deployedOracle with l1BaseFee := low} [0xf8, 0x00, 0x01] ≤
        chargedFee conv {deployedOracle with l1BaseFee := high} [0xf8, 0x00, 0x01] := by
  have hfee : deployedOracle.getL1Fee [0xf8, 0x00, 0x01] = .ok 174330116220000 := by
    decide +kernel
  have hfits : Fits deployedOracle [0xf8, 0x00, 0x01] := by
    decide +kernel
  exact ⟨hfee, hfits, (l1_fee_agreement_iff _ _ _ hfee).1 hfits⟩

def cutOffOracle (l1BaseFee : Uint256) : Storage where
  owner := 0xf1
  gasPrice := 1
  l1BaseFee
  overhead := 3008
  scalar := 1
  decimals := 0

theorem l1_fee_collapses :
    (cutOffOracle (2 ^ 52)).getL1Fee [] = .ok (2 ^ 64) ∧
    (∀ conv, chargedFee conv (cutOffOracle (2 ^ 52 - 1)) [] = 2 ^ 64 - 4096) ∧
    ∀ conv, chargedFee conv (cutOffOracle (2 ^ 52)) [] = 0 := by
  refine ⟨by decide +kernel, ?_, ?_⟩
  · intro conv
    rw [chargedFee_eq_truncatedFee (by decide +kernel) (by decide +kernel)]
    decide +kernel
  · intro conv
    rw [chargedFee_eq_truncatedFee (by decide +kernel) (by decide +kernel)]
    decide +kernel

end L2Geth.Fees
