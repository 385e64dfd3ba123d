import TokamakTitan.Library.Transactions
import TokamakTitan.Portal.ResourceMetering

/-! The gas market over runs of metered calls: how far its parameters can move. -/
namespace Portal
open Checked

/-- The parameters that `__ResourceMetering_init` stores. -/
def ResourceParams.init (block : Block) : ResourceParams :=
  ⟨1000000000, 0, block.number.setWidth 64⟩

/-- A metered call as a transaction that logs the gas it burns. -/
def buyGas (powWad : ℤ → ℤ → Result ℤ) (params : ResourceParams) (call : Block × BitVec 64) :
    Result (ResourceParams × List ℕ) := do
  let (params, burnt) ← metered powWad call.1 call.2 params
  return (params, [burnt])

structure ResourceParams.Bounded (params : ResourceParams) : Prop where
  fee : MINIMUM_BASE_FEE ≤ params.prevBaseFee.toNat
  gas : (params.prevBoughtGas.toNat : ℤ) ≤ MAX_RESOURCE_LIMIT

/-- The base fee falls by at most 1/8, rises by at most 3/8, and rises only if more than the target
was bought. -/
structure ResourceParams.Follows (params next : ResourceParams) : Prop where
  falls : params.prevBaseFee.toNat - params.prevBaseFee.toNat / 8 ≤ next.prevBaseFee.toNat
  rises : next.prevBaseFee.toNat ≤ params.prevBaseFee.toNat + 3 * params.prevBaseFee.toNat / 8
  demand : params.prevBaseFee.toNat < next.prevBaseFee.toNat →
    TARGET_RESOURCE_LIMIT < params.prevBoughtGas.toNat

variable {powWad : ℤ → ℤ → Result ℤ} {params next : ResourceParams}

theorem int256_eq_ok {x y : ℤ} (h : int256 x = .ok y) : y = x := by
  unfold int256 at h
  split at h
  · exact (Except.ok.inj h).symm
  · cases h

theorem mul_tdiv_le {fee d b : ℤ} (hfee : 0 ≤ fee) (h : d ≤ b * TARGET_RESOURCE_LIMIT) :
    (fee * d).tdiv TARGET_RESOURCE_LIMIT ≤ fee * b := by
  have hle := Int.tdiv_le_tdiv (c := TARGET_RESOURCE_LIMIT) (by decide)
    (Int.mul_le_mul_of_nonneg_left h hfee)
  rwa [← Int.mul_assoc, Int.mul_tdiv_cancel _ (by decide)] at hle

/-- One block adds `x / 8` to the base fee, between -1/8 and 3/8 of it. -/
theorem updateBaseFee_eq_ok {blockDiff : Uint256} {fee : ℤ} (h : params.Bounded)
    (hok : updateBaseFee powWad params blockDiff = .ok fee) :
    ∃ sum, fee = clampBaseFee sum ∧ (blockDiff.toNat = 1 → ∃ x : ℤ,
      -params.prevBaseFee.toNat ≤ x ∧ x ≤ 3 * params.prevBaseFee.toNat ∧
      ((params.prevBoughtGas.toNat : ℤ) ≤ TARGET_RESOURCE_LIMIT → x ≤ 0) ∧
      sum = params.prevBaseFee.toNat + x.tdiv 8) := by
  simp only [updateBaseFee, bind_eq_ok] at hok
  obtain ⟨delta, hdelta, product, hproduct, sum, hsum, hok⟩ := hok
  obtain rfl := int256_eq_ok hdelta
  obtain rfl := int256_eq_ok hproduct
  obtain rfl := int256_eq_ok hsum
  split at hok
  next hgap =>
    simp only [skipBlocks, bind_eq_ok, pure_eq_ok] at hok
    obtain ⟨_, _, _, _, _, _, product, _, rfl⟩ := hok
    exact ⟨_, rfl, fun hone => absurd hgap (by simp [BitVec.lt_def, hone])⟩
  next =>
    have hgas := h.gas
    have hmax : MAX_RESOURCE_LIMIT = 4 * TARGET_RESOURCE_LIMIT := rfl
    refine ⟨_, (Except.ok.inj hok).symm, fun _ => ⟨_, ?_, ?_, ?_, rfl⟩⟩
    · have hle := mul_tdiv_le (d := TARGET_RESOURCE_LIMIT - params.prevBoughtGas.toNat) (b := 1)
        (Int.natCast_nonneg params.prevBaseFee.toNat) (by omega)
      rw [← Int.neg_sub, Int.mul_neg, Int.neg_tdiv] at hle
      omega
    · rw [Int.mul_comm 3]
      exact mul_tdiv_le (Int.natCast_nonneg _) (by omega)
    · intro htarget
      exact (mul_tdiv_le (b := 0) (Int.natCast_nonneg _) (by omega)).trans_eq (Int.mul_zero _)

theorem buyGas_eq_ok {call : Block × BitVec 64} {burnt : List ℕ} (h : params.Bounded)
    (hok : buyGas powWad params call = .ok (next, burnt)) :
    next.Bounded ∧
      (call.1.number.toNat = params.prevBlockNum.toNat + 1 → params.Follows next) := by
  simp only [buyGas, metered, enterBlock, bind_eq_ok, require_eq_ok, pure_eq_ok,
    Prod.mk.injEq] at hok
  obtain ⟨_, ⟨entered, ⟨blockDiff, hdiff, hentered⟩, bought, -, -, hlimit, -, -, rfl⟩, rfl, -⟩ :=
    hok
  rw [sub_eq_ok, BitVec.toNat_setWidth] at hdiff
  split at hentered
  next =>
    rw [bind_eq_ok] at hentered
    obtain ⟨fee, hfee, hentered⟩ := hentered
    obtain rfl := Except.ok.inj hentered
    obtain ⟨sum, rfl, hsum⟩ := updateBaseFee_eq_ok h hfee
    have hnat : ((BitVec.ofInt 128 (clampBaseFee sum)).toNat : ℤ) = clampBaseFee sum := by
      rw [BitVec.toNat_ofInt]
      unfold clampBaseFee MINIMUM_BASE_FEE
      omega
    have hclamp : clampBaseFee sum = min (max sum 10000) (2 ^ 128 - 1) := rfl
    have hmin : 10000 ≤ (params.prevBaseFee.toNat : ℤ) := h.fee
    refine ⟨⟨by unfold MINIMUM_BASE_FEE; dsimp only; omega, hlimit⟩, fun hnumber => ?_⟩
    obtain ⟨x, hlow, hhigh, hzero, hx⟩ := hsum (by omega)
    have hsign : Int.sign 8 = 1 := rfl
    rw [Int.tdiv_eq_ediv] at hx
    constructor <;> dsimp only <;> split at hx <;> omega
  next hsame =>
    obtain rfl := Except.ok.inj hentered
    refine ⟨⟨h.fee, hlimit⟩, fun hnumber => absurd ?_ hsame⟩
    show 0 < blockDiff.toNat
    omega

open Transactions in
/-- For every run of deposits, whatever `powWad` answers: the parameters stay in their ranges, and
from one block to the next the base fee follows the demand. -/
theorem gas_market_follows (powWad : ℤ → ℤ → Result ℤ) (start : Block)
    (calls : List (Block × BitVec 64)) :
    (run (buyGas powWad) (.init start) calls).Bounded ∧
    ∀ t ∈ trace (buyGas powWad) (.init start) calls,
      t.tx.1.number.toNat = t.pre.prevBlockNum.toNat + 1 → t.pre.Follows t.post := by
  have hrun (calls : List (Block × BitVec 64)) :
      (run (buyGas powWad) (.init start) calls).Bounded := by
    apply run_invariant (P := fun (s : ResourceParams) _ => s.Bounded)
    · exact ⟨by simp [ResourceParams.init, MINIMUM_BASE_FEE],
        by simp [ResourceParams.init, MAX_RESOURCE_LIMIT]⟩
    · exact fun _ _ _ _ _ hs hok => (buyGas_eq_ok hs hok).1
  refine ⟨hrun calls, fun t ht => ?_⟩
  obtain ⟨hok, us, _, _, hpre⟩ := mem_trace ht
  exact (buyGas_eq_ok (hpre ▸ hrun us) hok).2

end Portal
