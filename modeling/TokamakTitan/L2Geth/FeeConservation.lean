import TokamakTitan.L2Geth.StateTransition
import TokamakTitan.Messaging.Codec

/-! The state transition conserves ETH: what the sender is charged is what the coinbase receives,
and nothing else changes beside what the EVM does. -/
namespace L2Geth
open BitVec Nat
open Checked (Address Uint256 bind_eq_ok pure_eq_ok)
open Abi (Bytes word word_inj length_word)
open Messaging (setWidth_address_inj)

instance : Finite Address := Finite.of_injective BitVec.toFin fun _ _ => BitVec.eq_of_toFin_eq

noncomputable instance : Fintype Address := Fintype.ofFinite Address

section Balances

variable {H : Type} {chain : Chain H}

variable (hkeccak : Function.Injective chain.keccak)
include hkeccak

theorem getOVMBalanceKey_inj : Function.Injective (getOVMBalanceKey chain) := by
  intro a b h
  have hwords := (List.append_inj (hkeccak h) (by simp)).1
  exact setWidth_address_inj (word_inj hwords)

noncomputable def total (chain : Chain H) (s : StateDB H) : ℕ := ∑ a, getBalance chain s a

omit hkeccak in
theorem sum_single (a : Address) (amount : ℕ) :
    (∑ x, ((if x = a then amount else 0 : ℕ) : ℤ)) = amount := by
  rw [← cast_sum, Finset.sum_ite_eq', if_pos (Finset.mem_univ a)]

variable {amount : ℕ}

omit hkeccak in
theorem total_of_balances {chain : Chain H} {s out before after : StateDB H} {payer payee : Address}
    (h : ∀ a, (getBalance chain out a : ℤ) = getBalance chain s a + (getBalance chain after a -
      getBalance chain before a) - (if a = payer then amount else 0 : ℕ) + (if a = payee then amount
      else 0 : ℕ)) (hconserves : total chain after = total chain before) :
    total chain out = total chain s := by
  have hsum : (total chain out : ℤ) = total chain s + (total chain after - total chain before) := by
    simp only [total, cast_sum, h, Finset.sum_add_distrib, Finset.sum_sub_distrib]
    rw [sum_single, sum_single]
    ring
  rw [hconserves] at hsum
  omega

variable [DecidableEq H] (s : StateDB H)

theorem getBalance_update (a b : Address) (x : Uint256) :
    getBalance chain {s with ovmEth := Function.update s.ovmEth (getOVMBalanceKey chain b) x} a =
      if a = b then x.toNat else getBalance chain s a := by
  split
  next h => simp [getBalance, h]
  next h =>
    have hne : getOVMBalanceKey chain a ≠ getOVMBalanceKey chain b :=
      fun heq => h (getOVMBalanceKey_inj hkeccak heq)
    simp [getBalance, Function.update_of_ne hne]

theorem getBalance_addBalance {b : Address} (hfits : getBalance chain s b + amount < 2 ^ 256)
    (a : Address) :
    getBalance chain (addBalance chain b amount s) a =
      getBalance chain s a + if a = b then amount else 0 := by
  rw [addBalance, getBalance_update hkeccak]
  split
  next h =>
    rw [h, bigToHash, toNat_ofNat, ← cast_add, Int.natAbs_natCast, mod_eq_of_lt hfits]
  next => rw [add_zero]

theorem getBalance_subBalance {b : Address} (hle : amount ≤ getBalance chain s b) (a : Address) :
    getBalance chain (subBalance chain b amount s) a + (if a = b then amount else 0) =
      getBalance chain s a := by
  rw [subBalance, getBalance_update hkeccak]
  split
  next h =>
    have hlt : getBalance chain s b < 2 ^ 256 := isLt _
    rw [h, bigToHash, toNat_ofNat, ← cast_sub hle, Int.natAbs_natCast, mod_eq_of_lt (by omega)]
    omega
  next => rw [add_zero]

end Balances

section Transition

variable {H : Type} [DecidableEq H] {chain : Chain H} {msg : Message} {gp : BitVec 64}
  {s : StateDB H} {p : StateTransition H}

def mgval (chain : Chain H) (msg : Message) (s : StateDB H) : ℕ :=
  msg.gas.toNat * msg.gasPrice + if msg.queueOrigin = .sequencer then
    (newStateTransition chain msg 0 s).l1Fee else 0

structure Bought (chain : Chain H) (msg : Message) (gp : BitVec 64) (s : StateDB H)
    (p : StateTransition H) : Prop where
  initialGas : p.initialGas = msg.gas
  gas : p.gas.toNat ≤ msg.gas.toNat
  gp : p.gp.toNat + msg.gas.toNat = gp.toNat
  l1Fee : p.l1Fee = (newStateTransition chain msg 0 s).l1Fee
  affordable : mgval chain msg s ≤ getBalance chain s msg.sender
  state : p.state = subBalance chain msg.sender (mgval chain msg s) s

omit [DecidableEq H] in
theorem mgval_newStateTransition (chain : Chain H) (msg : Message) (gp : BitVec 64)
    (s : StateDB H) :
    (if msg.queueOrigin = .sequencer then
      msg.gas.toNat * msg.gasPrice + (newStateTransition chain msg gp s).l1Fee
      else msg.gas.toNat * msg.gasPrice) = mgval chain msg s := by
  rw [mgval]
  split
  next => rfl
  next => rfl

variable {st : StateTransition H}

theorem buyGas_eq_ok (h : buyGas chain msg st = .ok p)
    (hst : st = newStateTransition chain msg gp s) : Bought chain msg gp s p := by
  subst hst
  unfold buyGas at h
  dsimp only at h
  rw [mgval_newStateTransition] at h
  split at h
  next => cases h
  next hbalance =>
    split at h
    next => cases h
    next hgas =>
      have hle : msg.gas.toNat ≤ gp.toNat := Nat.le_of_not_lt hgas
      obtain rfl := Except.ok.inj h
      constructor
      case initialGas => rfl
      case gas =>
        change (0#64 + msg.gas).toNat ≤ msg.gas.toNat
        rw [BitVec.zero_add]
      case gp =>
        change (gp - msg.gas).toNat + msg.gas.toNat = gp.toNat
        rw [toNat_sub_of_le hle]
        exact Nat.sub_add_cancel hle
      case l1Fee => rfl
      case affordable => exact Nat.le_of_not_lt hbalance
      case state => rfl

theorem preCheck_eq_ok (h : preCheck chain msg st = .ok p) : buyGas chain msg st = .ok p := by
  unfold preCheck at h
  dsimp only at h
  split at h
  next =>
    split at h
    next => cases h
    next =>
      split at h
      next => cases h
      next => exact h
  next => exact h

theorem prepare_eq_ok (h : prepare chain msg gp s = .ok p) : Bought chain msg gp s p := by
  simp only [prepare, bind_eq_ok] at h
  obtain ⟨st, hcheck, gas, -, huse⟩ := h
  have hbought := buyGas_eq_ok (preCheck_eq_ok hcheck) rfl
  unfold useGas at huse
  split at huse
  next => cases huse
  next hgas =>
    have hle : gas.toNat ≤ st.gas.toNat := Nat.le_of_not_lt hgas
    obtain rfl := Except.ok.inj huse
    refine ⟨hbought.initialGas, ?_, hbought.gp, hbought.l1Fee, hbought.affordable, hbought.state⟩
    dsimp only
    rw [toNat_sub_of_le hle]
    exact (sub_le _ _).trans hbought.gas

def StateTransition.returned {H : Type} (p : StateTransition H) (e : Execution H) :
    StateTransition H :=
  {p with gas := e.gas, state := e.state}

def StateTransition.leftGas {H : Type} (p : StateTransition H) (e : Execution H) : BitVec 64 :=
  (p.returned e).gas + (p.returned e).refund

/-- The refund and the fee leave the balances below the bound of a storage slot. -/
def CreditsFit (chain : Chain H) (msg : Message) (p : StateTransition H) (e : Execution H) : Prop :=
  let remaining := (p.leftGas e).toNat * msg.gasPrice
  getBalance chain e.state msg.sender + remaining < 2 ^ 256 ∧
    getBalance chain (addBalance chain msg.sender remaining e.state) chain.coinbase +
      {p with gas := p.leftGas e}.fee msg < 2 ^ 256

omit [DecidableEq H] in
theorem refund_le (st : StateTransition H) : st.refund.toNat ≤ st.gasUsed.toNat / 2 := by
  unfold StateTransition.refund
  dsimp only
  split
  next h =>
    have hlt : st.state.refund.toNat < (st.gasUsed / 2).toNat := h
    rw [toNat_udiv] at hlt
    exact le_of_lt hlt
  next => rw [toNat_udiv]; exact le_refl _

variable {e : Execution H}

omit [DecidableEq H] in
theorem leftGas_le (hgas : e.gas.toNat ≤ p.initialGas.toNat) :
    (p.leftGas e).toNat ≤ p.initialGas.toNat := by
  have hused : (p.returned e).gasUsed.toNat = p.initialGas.toNat - e.gas.toNat :=
    toNat_sub_of_le hgas
  have hrefund := refund_le (p.returned e)
  have hlt := p.initialGas.isLt
  have hsum : (p.leftGas e).toNat = e.gas.toNat + (p.returned e).refund.toNat := by
    rw [StateTransition.leftGas, toNat_add]
    exact mod_eq_of_lt (by simp only [StateTransition.returned] at *; omega)
  omega

theorem settle_eq_ok {out : Transitioned H} (h : settle chain msg p e = .ok out) :
    out.usedGas = p.initialGas - p.leftGas e ∧
      out.gp.toNat = p.gp.toNat + (p.leftGas e).toNat ∧
      out.state = addBalance chain chain.coinbase ({p with gas := p.leftGas e}.fee msg)
        (addBalance chain msg.sender ((p.leftGas e).toNat * msg.gasPrice) e.state) := by
  simp only [settle, refundGas, bind_eq_ok, pure_eq_ok] at h
  obtain ⟨st, ⟨gp', hgp, rfl⟩, rfl⟩ := h
  refine ⟨rfl, ?_, rfl⟩
  unfold addGas at hgp
  split at hgp
  next => cases hgp
  next hle =>
    rw [← Except.ok.inj hgp, toNat_add, mod_eq_of_lt ?_]
    · rfl
    · have hlt := (p.leftGas e).isLt
      simp only [maxUint64, StateTransition.leftGas, StateTransition.returned] at hle hlt ⊢
      omega

def charge (chain : Chain H) (msg : Message) (s : StateDB H) (usedGas : BitVec 64) : ℕ :=
  match msg.queueOrigin with
  | .sequencer => usedGas.toNat * msg.gasPrice + (newStateTransition chain msg 0 s).l1Fee
  | .l1ToL2 => 0

theorem mgval_eq (hbought : Bought chain msg gp s p)
    (hprice : msg.queueOrigin = .l1ToL2 → msg.gasPrice = 0)
    (hleft : (p.leftGas e).toNat ≤ p.initialGas.toNat) :
    {p with gas := p.leftGas e}.fee msg = charge chain msg s (p.initialGas - p.leftGas e) ∧
      mgval chain msg s = (p.leftGas e).toNat * msg.gasPrice +
        charge chain msg s (p.initialGas - p.leftGas e) := by
  have hused : (p.initialGas - p.leftGas e).toNat =
      p.initialGas.toNat - (p.leftGas e).toNat := toNat_sub_of_le hleft
  have hfee : {p with gas := p.leftGas e}.fee msg =
      (newStateTransition chain msg 0 s).l1Fee +
        (p.initialGas - p.leftGas e).toNat * msg.gasPrice := by
    rw [StateTransition.fee, hbought.l1Fee]
    rfl
  have hsplit : msg.gas.toNat * msg.gasPrice = (p.leftGas e).toNat * msg.gasPrice +
      (p.initialGas - p.leftGas e).toNat * msg.gasPrice := by
    rw [← Nat.add_mul, hused, Nat.add_sub_cancel' hleft, hbought.initialGas]
  rw [hfee]
  unfold mgval charge
  cases horigin : msg.queueOrigin with
  | sequencer =>
    rw [if_pos rfl]
    dsimp only
    omega
  | l1ToL2 =>
    have hzero := hprice horigin
    simp [hzero, newStateTransition]

/-- With the OVM enabled, a transition without an error conserves ETH: every balance changes by what
the EVM does to it, the charge of the sender and the same amount for the coinbase; and the gas pool
loses the used gas. -/
theorem transition_conserves (hkeccak : Function.Injective chain.keccak)
    (hprice : msg.queueOrigin = .l1ToL2 → msg.gasPrice = 0)
    (hprepare : prepare chain msg gp s = .ok p)
    (hconserves : total chain (execute chain msg p).state = total chain p.state)
    (hgas : (execute chain msg p).gas ≤ p.gas)
    (hfit : CreditsFit chain msg p (execute chain msg p))
    {out : Transitioned H} (h : transitionDb chain msg gp s = .ok out) :
    total chain out.state = total chain s ∧
      (∀ a, (getBalance chain out.state a : ℤ) = getBalance chain s a +
        (getBalance chain (execute chain msg p).state a - getBalance chain p.state a) -
        (if a = msg.sender then charge chain msg s out.usedGas else 0 : ℕ) +
        (if a = chain.coinbase then charge chain msg s out.usedGas else 0 : ℕ)) ∧
      out.gp.toNat + out.usedGas.toNat = gp.toNat := by
  have hbought := prepare_eq_ok hprepare
  simp only [transitionDb, hprepare, Checked.ok_bind] at h
  split at h
  next => cases h
  next =>
    generalize execute chain msg p = e at *
    have hinitial : e.gas.toNat ≤ p.initialGas.toNat := by
      rw [hbought.initialGas]
      exact Nat.le_trans hgas hbought.gas
    have hleft := leftGas_le hinitial
    obtain ⟨hused, hgp, hstate⟩ := settle_eq_ok h
    obtain ⟨hfee, hmgval⟩ := mgval_eq hbought hprice hleft
    rw [← hused] at hfee hmgval
    have hbalance : ∀ a, (getBalance chain out.state a : ℤ) = getBalance chain s a +
        (getBalance chain e.state a - getBalance chain p.state a) -
        (if a = msg.sender then charge chain msg s out.usedGas else 0 : ℕ) +
        (if a = chain.coinbase then charge chain msg s out.usedGas else 0 : ℕ) := by
      intro a
      have hsub := getBalance_subBalance hkeccak s hbought.affordable a
      rw [← hbought.state] at hsub
      rw [hstate, getBalance_addBalance hkeccak _ hfit.2, getBalance_addBalance hkeccak _ hfit.1,
        hfee]
      by_cases ha : a = msg.sender
      · simp only [ha, if_true] at hsub ⊢
        omega
      · simp only [ha, if_false] at hsub ⊢
        omega
    refine ⟨total_of_balances hbalance hconserves, hbalance, ?_⟩
    have hnat : out.usedGas.toNat = p.initialGas.toNat - (p.leftGas e).toNat := by
      rw [hused]
      exact BitVec.toNat_sub_of_le hleft
    have hgp₀ := hbought.gp
    rw [hbought.initialGas] at hnat hleft
    omega

end Transition

def idleChain : Chain Bytes where
  keccak := id
  coinbase := 0xc0
  isHomestead := true
  isIstanbul := true
  calculateL1MsgFee _ _ := 500
  create _ gas state := ⟨[], gas, none, state⟩
  call _ gas state := ⟨[], gas, none, state⟩

def transferMsg : Message where
  sender := 0x55
  recipient := some 0x66
  gasPrice := 1
  gas := 30000
  value := 0
  nonce := 0
  checkNonce := true
  data := []
  queueOrigin := .sequencer

variable (coinbase : Uint256)

def funded : StateDB Bytes where
  ovmEth key :=
    if key = getOVMBalanceKey idleChain 0x55 then 50000
    else if key = getOVMBalanceKey idleChain 0xc0 then coinbase
    else 0
  nonces _ := 0
  refund := 0

def prepared : Except Error (StateTransition Bytes) :=
  prepare idleChain transferMsg 100000 (funded coinbase)

def transitioned : Except Error (Transitioned Bytes) :=
  transitionDb idleChain transferMsg 100000 (funded coinbase)

def gasBought : StateTransition Bytes :=
  (prepared coinbase).toOption.getD (newStateTransition idleChain transferMsg 0 (funded coinbase))

def settledOut : Transitioned Bytes :=
  (transitioned coinbase).toOption.getD ⟨[], 0, true, funded coinbase, 0⟩

theorem prepare_transferMsg (h : (prepared coinbase).toOption.isSome) :
    prepared coinbase = .ok (gasBought coinbase) := Checked.eq_ok_getD h

theorem transitionDb_transferMsg (h : (transitioned coinbase).toOption.isSome) :
    transitioned coinbase = .ok (settledOut coinbase) := Checked.eq_ok_getD h

theorem total_congr {s s' : StateDB Bytes} (h : s.ovmEth = s'.ovmEth) :
    total idleChain s = total idleChain s' := by
  simp only [total, getBalance, h]

theorem transition_conserves_sample :
    total idleChain (settledOut 7).state = total idleChain (funded 7) ∧
      (settledOut 7).gp.toNat + (settledOut 7).usedGas.toNat = (100000 : BitVec 64).toNat := by
  have hfit : CreditsFit idleChain transferMsg (gasBought 7)
      (execute idleChain transferMsg (gasBought 7)) := by
    constructor
    · decide +kernel
    · decide +kernel
  have hconserves := transition_conserves Function.injective_id (fun h => by cases h)
    (prepare_transferMsg 7 (by decide +kernel)) (total_congr rfl) (by decide +kernel) hfit
    (transitionDb_transferMsg 7 (by decide +kernel))
  exact ⟨hconserves.1, hconserves.2.2⟩

theorem coinbase_overflow :
    prepared (-1) = .ok (gasBought (-1)) ∧
      total idleChain (execute idleChain transferMsg (gasBought (-1))).state =
        total idleChain (gasBought (-1)).state ∧
      (execute idleChain transferMsg (gasBought (-1))).gas ≤ (gasBought (-1)).gas ∧
      transitioned (-1) = .ok (settledOut (-1)) ∧
      getBalance idleChain (funded (-1)) 0xc0 = 2 ^ 256 - 1 ∧
      charge idleChain transferMsg (funded (-1)) (settledOut (-1)).usedGas = 21500 ∧
      getBalance idleChain (settledOut (-1)).state 0xc0 = 21499 :=
  ⟨prepare_transferMsg _ (by decide +kernel), total_congr rfl, by decide +kernel,
    transitionDb_transferMsg _ (by decide +kernel), by decide +kernel, by decide +kernel,
    by decide +kernel⟩

end L2Geth
