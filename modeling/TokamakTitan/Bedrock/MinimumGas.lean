import TokamakTitan.Bedrock.RelayValue
import TokamakTitan.Portal.Authenticity

/-! The gas that the targets of withdrawals and messages receive. The contracts check a constant
amount beyond the gas limit, but a call keeps a part of the gas left. -/
namespace Bedrock
open Checked BitVec Nat
open Abi (Bytes)
open Portal (Deployment WithdrawalTransaction OutputRootProof World FINALIZE_GAS_BUFFER
  finalizeWithdrawalTransaction)

variable (availableGas base callCost : ℕ)

/-- The gas that a call passes on if it asks for `callCost` (EIP-150). -/
def callGas : ℕ :=
  let available := availableGas - base
  let gas := available - available / 64
  if gas < callCost then gas else callCost

def CALL_STIPEND : ℕ := 2300

def stipend (value : Uint256) : ℕ := if value ≠ 0 then CALL_STIPEND else 0

def calleeGas (value : Uint256) : ℕ :=
  callGas availableGas base callCost + stipend value

structure Costs where
  beforeGas : ℕ
  beforeCall : ℕ
  base : ℕ
  deriving DecidableEq

def Costs.total (costs : Costs) : ℕ := costs.beforeGas + costs.beforeCall + costs.base

/-- The gas of the target of a withdrawal, with `gasleft` at the check. -/
def withdrawalGas (costs : Costs) (gasleft : Uint256) (tx : WithdrawalTransaction) : ℕ :=
  calleeGas (gasleft.toNat - (costs.beforeGas + costs.beforeCall)) costs.base tx.gasLimit.toNat
    tx.value

def messageGas (costs : Costs) (gasleftAtCall gas : Uint256) (m : Message) : ℕ :=
  calleeGas (gasleftAtCall.toNat - costs.beforeCall) costs.base gas.toNat m.value

theorem le_calleeGas_iff {availableGas base callCost wanted : ℕ} {value : Uint256} :
    wanted ≤ calleeGas availableGas base callCost value ↔ wanted ≤ stipend value ∨
      (64 * wanted ≤ 63 * (availableGas - base) + 63 + 64 * stipend value ∧
        wanted ≤ callCost + stipend value) := by
  unfold calleeGas callGas
  dsimp only
  split
  next h => omega
  next h => omega

section Withdrawals

variable {H : Type} [DecidableEq H] [Zero H] {d : Deployment H} {tx : WithdrawalTransaction}
  {l2BlockNumber : Uint256} {proof : OutputRootProof H} {withdrawalProof : Bytes}
  {w atCall : World H} {gasleft gasleft' : Uint256}

variable (h : finalizeWithdrawalTransaction d gasleft tx l2BlockNumber proof withdrawalProof w = .ok
  atCall)
include h

theorem gasLimit_le : tx.gasLimit.toNat + 20000 ≤ gasleft.toNat := by
  simp only [finalizeWithdrawalTransaction, bind_eq_ok, require_eq_ok, pure_eq_ok] at h
  obtain ⟨-, -, -, -, proposal, -, finalized, -, -, -, -, -, included, -, -, -, -, -, required,
    hrequired, -, hgas, -⟩ := h
  have hsum := add_eq_ok.mp hrequired
  have hle : required.toNat ≤ gasleft.toNat := hgas
  have hbuffer : FINALIZE_GAS_BUFFER.toNat = 20000 := rfl
  omega

theorem finalize_of_gas (hgas : tx.gasLimit.toNat + 20000 ≤ gasleft'.toNat) :
    finalizeWithdrawalTransaction d gasleft' tx l2BlockNumber proof withdrawalProof w =
      .ok atCall := by
  simp only [finalizeWithdrawalTransaction, bind_eq_ok, require_eq_ok, pure_eq_ok] at h ⊢
  obtain ⟨u₁, h₁, u₂, h₂, proposal, h₃, finalized, h₄, u₅, h₅, u₆, h₆, included, h₇, u₈, h₈, u₉,
    h₉, required, hrequired, u₁₀, -, heq⟩ := h
  refine ⟨u₁, h₁, u₂, h₂, proposal, h₃, finalized, h₄, u₅, h₅, u₆, h₆, included, h₇, u₈, h₈, u₉,
    h₉, required, hrequired, u₁₀, ?_, heq⟩
  have hsum := add_eq_ok.mp hrequired
  have hbuffer : FINALIZE_GAS_BUFFER.toNat = 20000 := rfl
  change required.toNat ≤ gasleft'.toNat
  omega

/-- The target of a withdrawal always has its gas limit exactly if a 64th of the limit and the
buffer fits into what the buffer has beyond the costs. -/
theorem withdrawalGas_iff {costs : Costs} (hcosts : costs.total ≤ gasleft.toNat) :
    (∀ gasleft' atCall', finalizeWithdrawalTransaction d gasleft' tx l2BlockNumber proof
        withdrawalProof w = .ok atCall' → costs.total ≤ gasleft'.toNat →
        tx.gasLimit.toNat ≤ withdrawalGas costs gasleft' tx) ↔
      tx.gasLimit.toNat ≤ stipend tx.value ∨
        tx.gasLimit.toNat + 63 * costs.total ≤ 63 * 20001 + 64 * stipend tx.value := by
  have hpassed := gasLimit_le h
  have hlt := gasleft.isLt
  unfold Costs.total at hcosts ⊢
  constructor
  · intro hall
    -- The least gas with which the call is reached.
    have hleast := hall (BitVec.ofNat 256 (max (tx.gasLimit.toNat + 20000) costs.total)) atCall
    rw [toNat_ofNat, mod_eq_of_lt (by unfold Costs.total; omega)] at hleast
    have hgas := hleast (finalize_of_gas h (by
      rw [toNat_ofNat, mod_eq_of_lt (by unfold Costs.total; omega)]
      exact le_max_left _ _)) (le_max_right _ _)
    rw [withdrawalGas, le_calleeGas_iff, toNat_ofNat,
      mod_eq_of_lt (by unfold Costs.total; omega)] at hgas
    unfold Costs.total at hgas
    omega
  · intro hbound gasleft' atCall' hok hreached
    have hle := gasLimit_le hok
    rw [withdrawalGas, le_calleeGas_iff]
    omega

end Withdrawals

section Relays

variable {H : Type} {c : Child} {keccak : Bytes → H} {m : Message} {w atCall : Messenger H}
  {env : Env} {gasleft gasleftAtCall gas : Uint256}

variable (h : relayMessage c keccak env gasleft gasleftAtCall m w = .ok (atCall, gas))
include h

theorem minGasLimit_le : m.minGasLimit.toNat + 45000 ≤ gasleft.toNat ∧
      gasleftAtCall.toNat = 40000 + gas.toNat := by
  simp only [relayMessage, bind_eq_ok, require_eq_ok, pure_eq_ok, Prod.mk.injEq] at h
  obtain ⟨-, -, -, -, -, -, -, -, -, -, -, -, required, hrequired, -, hgas, asked, hasked, -,
    rfl⟩ := h
  have hsum := add_eq_ok.mp hrequired
  have hdifference := sub_eq_ok.mp hasked
  have hle : required.toNat ≤ gasleft.toNat := hgas
  have hconstant : RELAY_GAS_REQUIRED.toNat = 45000 := rfl
  have hbuffer : RELAY_GAS_BUFFER.toNat = 40000 := rfl
  exact ⟨by omega, by omega⟩

theorem relay_of_gas {gasleft' gasleftAtCall' gas' : Uint256}
    (hgas : m.minGasLimit.toNat + 45000 ≤ gasleft'.toNat)
    (hasked : gasleftAtCall'.toNat = 40000 + gas'.toNat) :
    relayMessage c keccak env gasleft' gasleftAtCall' m w = .ok (atCall, gas') := by
  simp only [relayMessage, bind_eq_ok, require_eq_ok, pure_eq_ok, Prod.mk.injEq] at h ⊢
  obtain ⟨u₁, h₁, u₂, h₂, u₃, h₃, u₄, h₄, u₅, h₅, u₆, h₆, required, hrequired, u₇, -, asked, -,
    heq, -⟩ := h
  refine ⟨u₁, h₁, u₂, h₂, u₃, h₃, u₄, h₄, u₅, h₅, u₆, h₆, required, hrequired, u₇, ?_, gas', ?_,
    heq, rfl⟩
  · have hsum := add_eq_ok.mp hrequired
    have hconstant : RELAY_GAS_REQUIRED.toNat = 45000 := rfl
    change required.toNat ≤ gasleft'.toNat
    omega
  · exact sub_eq_ok.mpr hasked

structure Reached (costs : Costs) (c : Child) (keccak : Bytes → H) (env : Env) (m : Message)
    (w : Messenger H) (gasleft gasleftAtCall gas : Uint256) : Prop where
  accepted : ∃ atCall, relayMessage c keccak env gasleft gasleftAtCall m w = .ok (atCall, gas)
  gasleft : gasleft.toNat = gasleftAtCall.toNat + costs.beforeGas
  costs : costs.beforeCall + costs.base ≤ gasleftAtCall.toNat

omit h in
theorem exists_least (a b c : ℕ) : ∃ n, a ≤ n ∧ b ≤ n ∧ c ≤ n ∧ (n = a ∨ n = b ∨ n = c) :=
  ⟨max a (max b c), by omega, by omega, by omega, by omega⟩

omit h in
/-- The target of a message always has its minimum exactly if a 64th of the minimum and the required
gas fits into what is required beyond the costs, and setting the sender is cheap. -/
theorem messageGas_iff {costs : Costs}
    (h : Reached costs c keccak env m w gasleft gasleftAtCall gas) :
    (∀ gasleft' gasleftAtCall' gas', Reached costs c keccak env m w gasleft' gasleftAtCall' gas' →
        m.minGasLimit.toNat ≤ messageGas costs gasleftAtCall' gas' m) ↔
      m.minGasLimit.toNat ≤ stipend m.value ∨
        (costs.beforeGas ≤ 5000 + stipend m.value ∧
          m.minGasLimit.toNat + 63 * costs.total ≤ 63 * 45001 + 64 * stipend m.value) := by
  obtain ⟨⟨atCall, hok⟩, hgasleft, hcosts⟩ := h
  obtain ⟨hpassed, hasked⟩ := minGasLimit_le hok
  have hlt := gasleft.isLt
  constructor
  · intro hall
    -- The least gas with which the call is reached.
    obtain ⟨least, hminimum, hbuffer, htotal, hleast⟩ :=
      exists_least (m.minGasLimit.toNat + 45000) (costs.beforeGas + 40000) costs.total
    have hreached : least ≤ gasleft.toNat := by
      unfold Costs.total at hleast
      rcases hleast with rfl | rfl | rfl
      · exact hpassed
      · omega
      · omega
    have hnat : ∀ n, n ≤ least → (BitVec.ofNat 256 n).toNat = n := by
      intro n hn
      rw [toNat_ofNat, mod_eq_of_lt (by omega)]
    obtain ⟨asked, rfl⟩ := Nat.exists_eq_add_of_le hbuffer
    have hrelay : Reached costs c keccak env m w
        (BitVec.ofNat 256 (costs.beforeGas + 40000 + asked)) (BitVec.ofNat 256 (40000 + asked))
        (BitVec.ofNat 256 asked) := by
      constructor
      case accepted =>
        refine ⟨atCall, relay_of_gas hok ?_ ?_⟩
        · rw [hnat _ (le_refl _)]
          exact hminimum
        · rw [hnat _ (by omega), hnat _ (by omega)]
      case gasleft =>
        rw [hnat _ (le_refl _), hnat _ (by omega)]
        omega
      case costs =>
        unfold Costs.total at htotal
        rw [hnat _ (by omega)]
        omega
    have hgas := hall _ _ _ hrelay
    rw [messageGas, le_calleeGas_iff, hnat _ (by omega), hnat _ (by omega)] at hgas
    unfold Costs.total at htotal hleast ⊢
    clear hok hgasleft hcosts hpassed hasked hlt hreached
    omega
  · rintro hbound gasleft' gasleftAtCall' gas' ⟨⟨atCall', hok'⟩, hgasleft', hcosts'⟩
    obtain ⟨hle, hasked'⟩ := minGasLimit_le hok'
    unfold Costs.total at hbound
    rw [messageGas, le_calleeGas_iff]
    omega

end Relays

theorem baseGas_iff (message : Bytes) (minGasLimit : Uint32) :
    (∃ gasLimit, baseGas message minGasLimit = .ok gasLimit ∧
      minGasLimit.toNat + RELAY_GAS_REQUIRED.toNat ≤ gasLimit.toNat) ↔
      minGasLimit.toNat * 1016 < 2 ^ 32 ∧
        minGasLimit.toNat * 1016 / 1000 + message.length % 2 ^ 32 * 16 + 200000 < 2 ^ 32 := by
  have hnumerator : MIN_GAS_DYNAMIC_OVERHEAD_NUMERATOR.toNat = 1016 := rfl
  have hdenominator : MIN_GAS_DYNAMIC_OVERHEAD_DENOMINATOR.toNat = 1000 := rfl
  have hcalldata : MIN_GAS_CALLDATA_OVERHEAD.toNat = 16 := rfl
  have hconstant : MIN_GAS_CONSTANT_OVERHEAD.toNat = 200000 := rfl
  have hrequired : RELAY_GAS_REQUIRED.toNat = 45000 := rfl
  have hpos : 0 < MIN_GAS_DYNAMIC_OVERHEAD_DENOMINATOR.toNat := by decide
  simp only [baseGas, bind_eq_ok, mul_eq_ok, div_eq_ok hpos, add_eq_ok, hnumerator, hdenominator,
    hcalldata, hconstant, hrequired, toNat_ofNat]
  constructor
  · rintro ⟨gasLimit, ⟨scaled, hscaled, dynamic, hdynamic, calldata, hdata, overhead, hoverhead,
      hgasLimit⟩, -⟩
    have hs := scaled.isLt
    have hg := gasLimit.isLt
    exact ⟨by omega, by omega⟩
  · rintro ⟨hscaled, hsum⟩
    have hnat : ∀ n, n < 2 ^ 32 → (BitVec.ofNat 32 n).toNat = n := by
      intro n hn
      rw [toNat_ofNat, mod_eq_of_lt hn]
    refine ⟨BitVec.ofNat 32 (minGasLimit.toNat * 1016 / 1000 + message.length % 2 ^ 32 * 16 +
      200000), ⟨BitVec.ofNat 32 (minGasLimit.toNat * 1016), (hnat _ hscaled).symm,
      BitVec.ofNat 32 (minGasLimit.toNat * 1016 / 1000), ?_,
      BitVec.ofNat 32 (message.length % 2 ^ 32 * 16), (hnat _ (by omega)).symm,
      BitVec.ofNat 32 (minGasLimit.toNat * 1016 / 1000 + message.length % 2 ^ 32 * 16), ?_, ?_⟩, ?_⟩
    · rw [hnat _ hscaled, hnat _ (by omega)]
    · rw [hnat _ (by omega), hnat _ (by omega), hnat _ (by omega)]
    · rw [hnat _ (by omega), hnat _ hsum]
    · rw [hnat _ hsum]
      omega

section Guarantee

variable {H K : Type} [DecidableEq H] [Zero H] {d : Deployment H} {tx : WithdrawalTransaction}
  {l2BlockNumber : Uint256} {proof : OutputRootProof H} {withdrawalProof : Bytes}
  {world : World H} {c : Child} {keccak : Bytes → K} {m : Message} {w : Messenger K} {env : Env}

/-- For which withdrawals and messages that can reach their target at all the target has its gas
whenever it is called, and for which enough gas is requested. -/
theorem minimum_gas_iff {costs costs' : Costs} (message : Bytes) (minGasLimit : Uint32) :
    ((∃ gasleft called, finalizeWithdrawalTransaction d gasleft tx l2BlockNumber proof
        withdrawalProof world = .ok called ∧ costs.total ≤ gasleft.toNat) →
      ((∀ gasleft called, finalizeWithdrawalTransaction d gasleft tx l2BlockNumber proof
          withdrawalProof world = .ok called → costs.total ≤ gasleft.toNat →
          tx.gasLimit.toNat ≤ withdrawalGas costs gasleft tx) ↔
        tx.gasLimit.toNat ≤ stipend tx.value ∨
          tx.gasLimit.toNat + 63 * costs.total ≤ 63 * 20001 + 64 * stipend tx.value)) ∧
    ((∃ gasleft gasleftAtCall gas, Reached costs' c keccak env m w gasleft gasleftAtCall gas) →
      ((∀ gasleft gasleftAtCall gas, Reached costs' c keccak env m w gasleft gasleftAtCall gas →
          m.minGasLimit.toNat ≤ messageGas costs' gasleftAtCall gas m) ↔
        m.minGasLimit.toNat ≤ stipend m.value ∨
          (costs'.beforeGas ≤ 5000 + stipend m.value ∧
            m.minGasLimit.toNat + 63 * costs'.total ≤ 63 * 45001 + 64 * stipend m.value))) ∧
    ((∃ gasLimit, baseGas message minGasLimit = .ok gasLimit ∧
        minGasLimit.toNat + RELAY_GAS_REQUIRED.toNat ≤ gasLimit.toNat) ↔
      minGasLimit.toNat * 1016 < 2 ^ 32 ∧
        minGasLimit.toNat * 1016 / 1000 + message.length % 2 ^ 32 * 16 + 200000 < 2 ^ 32) := by
  refine ⟨?_, ?_, baseGas_iff message minGasLimit⟩
  · rintro ⟨_, _, hfinalize, hcosts⟩
    exact withdrawalGas_iff hfinalize hcosts
  · rintro ⟨_, _, _, hrelay⟩
    exact messageGas_iff hrelay

end Guarantee

open Portal (openDeployment defaultWithdrawal otherWithdrawal sealedOutput finalWorld
  finalize_default finalize_other)

def berlinCosts : Costs := ⟨5000, 200, 11600⟩

theorem reached_delivery : Reached berlinCosts l1Child (id : Bytes → Bytes) deliveryEnv
    payMessage freshMessenger 300000 295000 255000 :=
  ⟨⟨deliveredMessenger, relay_of_gas relayMessage_delivery (by decide) (by decide)⟩, by decide,
    by decide⟩

theorem minimum_gas_sample :
    (∀ gasleft called, finalizeWithdrawalTransaction openDeployment gasleft defaultWithdrawal 1
        sealedOutput [] finalWorld = .ok called → berlinCosts.total ≤ gasleft.toNat →
        100000 ≤ withdrawalGas berlinCosts gasleft defaultWithdrawal) ∧
      ∀ gasleft gasleftAtCall gas, Reached berlinCosts l1Child (id : Bytes → Bytes)
        deliveryEnv payMessage freshMessenger gasleft gasleftAtCall gas →
        200000 ≤ messageGas berlinCosts gasleftAtCall gas payMessage := by
  obtain ⟨hwithdrawal, hmessage, -⟩ := minimum_gas_iff (d := openDeployment) (w := freshMessenger)
    [] 0
  exact ⟨(hwithdrawal ⟨3000000, _, finalize_default, by decide⟩).mpr (.inr (by decide)),
    (hmessage ⟨_, _, _, reached_delivery⟩).mpr (.inr (by decide))⟩

def costlyMessage : Message := {payMessage with minGasLimit := 4000000}

theorem calleeGas_le (availableGas base callCost : ℕ) (value : Uint256) :
    calleeGas availableGas base callCost value ≤ availableGas - availableGas / 64 + 2300 := by
  have hstipend : stipend value ≤ 2300 := by
    unfold stipend
    split
    next => exact le_refl _
    next => exact zero_le _
  unfold calleeGas callGas
  dsimp only
  split
  next => omega
  next => omega

/-- Whatever the costs, with just the gas that is checked the targets of a withdrawal and of a
message have less than they should; and for a larger minimum no gas limit can be computed. -/
theorem minimum_gas_missed :
    (∃ called, finalizeWithdrawalTransaction openDeployment 2020000 otherWithdrawal 1 sealedOutput
        [] finalWorld = .ok called ∧
      ∀ costs, withdrawalGas costs 2020000 otherWithdrawal < otherWithdrawal.gasLimit.toNat) ∧
    (Reached berlinCosts l1Child (id : Bytes → Bytes) deliveryEnv costlyMessage
        freshMessenger 4045000 4040000 4000000 ∧
      ∀ costs gasleftAtCall gas, Reached costs l1Child (id : Bytes → Bytes) deliveryEnv
        costlyMessage freshMessenger 4045000 gasleftAtCall gas →
        messageGas costs gasleftAtCall gas costlyMessage < costlyMessage.minGasLimit.toNat) ∧
    baseGas [] 4227331 = .error (.panic arithmeticPanic) := by
  refine ⟨⟨_, finalize_of_gas finalize_other (by decide), ?_⟩, ⟨?_, ?_⟩, by decide⟩
  · intro costs
    have hlimit : otherWithdrawal.gasLimit.toNat = 2000000 := rfl
    have hgas : (2020000 : Uint256).toNat = 2020000 := rfl
    have hle := calleeGas_le ((2020000 : Uint256).toNat - (costs.beforeGas + costs.beforeCall))
      costs.base otherWithdrawal.gasLimit.toNat otherWithdrawal.value
    rw [withdrawalGas]
    omega
  · exact ⟨⟨{deliveredMessenger with delivered := [costlyMessage]}, by rfl⟩, by decide, by decide⟩
  · rintro costs gasleftAtCall gas ⟨-, hgasleft, -⟩
    have hlimit : costlyMessage.minGasLimit.toNat = 4000000 := rfl
    have hgas : (4045000 : Uint256).toNat = 4045000 := rfl
    have hle := calleeGas_le (gasleftAtCall.toNat - costs.beforeCall) costs.base gas.toNat
      costlyMessage.value
    rw [messageGas]
    omega

end Bedrock
