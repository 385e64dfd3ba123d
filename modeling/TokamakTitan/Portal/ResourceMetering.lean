import TokamakTitan.Library.Checked

/-! The gas market of deposits: the gas that a deposit asks for on L2 is bought at a base fee that
follows the demand. -/
namespace Portal
open Checked

structure ResourceParams where
  prevBaseFee : BitVec 128
  prevBoughtGas : BitVec 64
  prevBlockNum : BitVec 64
  deriving DecidableEq

structure Block where
  number : Uint256
  basefee : Uint256
  deriving DecidableEq

def MAX_RESOURCE_LIMIT : ℤ := 8000000

def ELASTICITY_MULTIPLIER : ℤ := 4

def TARGET_RESOURCE_LIMIT : ℤ := MAX_RESOURCE_LIMIT / ELASTICITY_MULTIPLIER

def BASE_FEE_MAX_CHANGE_DENOMINATOR : ℤ := 8

def MINIMUM_BASE_FEE : ℤ := 10000

def wad : ℤ := 1000000000000000000

def clampBaseFee (fee : ℤ) : ℤ := min (max fee MINIMUM_BASE_FEE) (2 ^ 128 - 1)

variable (powWad : ℤ → ℤ → Result ℤ)

def skipBlocks (fee : ℤ) (blockDiff : Uint256) : Result ℤ := do
  let empty ← sub blockDiff 1
  let exponent ← mul empty 1000000000000000000
  let factor ← powWad (wad - wad / BASE_FEE_MAX_CHANGE_DENOMINATOR) exponent.toInt
  let product ← int256 (fee * factor)
  return clampBaseFee (product.tdiv wad)

def updateBaseFee (params : ResourceParams) (blockDiff : Uint256) : Result ℤ := do
  let prevBaseFee : ℤ := params.prevBaseFee.toNat
  let gasUsedDelta ← int256 (params.prevBoughtGas.toNat - TARGET_RESOURCE_LIMIT)
  let product ← int256 (prevBaseFee * gasUsedDelta)
  let baseFeeDelta :=
    (product.tdiv TARGET_RESOURCE_LIMIT).tdiv BASE_FEE_MAX_CHANGE_DENOMINATOR
  let sum ← int256 (prevBaseFee + baseFeeDelta)
  if blockDiff > 1 then skipBlocks powWad (clampBaseFee sum) blockDiff
  else return clampBaseFee sum

def enterBlock (block : Block) (params : ResourceParams) : Result ResourceParams := do
  let blockDiff ← sub block.number (params.prevBlockNum.setWidth 256)
  if blockDiff > 0 then
    let newBaseFee ← updateBaseFee powWad params blockDiff
    return {
      prevBaseFee := BitVec.ofInt 128 newBaseFee
      prevBoughtGas := 0
      prevBlockNum := block.number.setWidth 64 }
  else return params

/-- The modifier after the function it wraps: the new parameters, and the L1 gas that is burnt at
least. -/
def metered (block : Block) (amount : BitVec 64) (params : ResourceParams) :
    Result (ResourceParams × ℕ) := do
  let params ← enterBlock powWad block params
  let boughtGas ← add params.prevBoughtGas amount
  require ((boughtGas.toNat : ℤ) ≤ MAX_RESOURCE_LIMIT)
    "ResourceMetering: cannot buy more gas than available gas limit"
  let resourceCost ← mul (amount.setWidth 128) params.prevBaseFee
  return ({ params with prevBoughtGas := boughtGas },
    resourceCost.toNat / max block.basefee.toNat 1000000000)

end Portal
