import Mathlib.Data.FinEnum
import TokamakTitan.Bridge.Contracts

/-! What a call of either bridge does to the amounts that it accounts for. -/
namespace Bridge
open Checked Abi List Function

variable {m : FinalizeDeposit}

def FinalizeDeposit.amountOf (l1Token l2Token : Address) (m : FinalizeDeposit) : ℕ :=
  if m.l1Token = l1Token ∧ m.l2Token = l2Token then m.amount.toNat else 0

def Withdrawal.amountOf (l1Token l2Token : Address) : Withdrawal → ℕ
  | .finalizeETHWithdrawal _ _ _ _ => 0
  | .finalizeERC20Withdrawal l1Token' l2Token' _ _ amount _ =>
    if l1Token' = l1Token ∧ l2Token' = l2Token then amount.toNat else 0

def Withdrawal.ethAmount : Withdrawal → ℕ
  | .finalizeETHWithdrawal _ _ amount _ => amount.toNat
  | .finalizeERC20Withdrawal _ _ _ _ _ _ => 0

theorem FinalizeDeposit.amountOf_ne {l1 l2 : Address} (h : ¬ (m.l1Token = l1 ∧ m.l2Token = l2)) :
    m.amountOf l1 l2 = 0 :=
  if_neg h

variable {l2Token toAddr fromAddr xDomainMessageSender : Address} {data : Bytes} {amount : Uint256}

theorem transferExact_eq_ok {token : Address} {balances balances' : Balances}
    (h : transferExact token fromAddr toAddr amount balances = .ok balances') :
    token ≠ 0 ∧ (∀ other, other ≠ token → balances' other = balances other) ∧
    ∀ a, balances' token a + (if a = fromAddr then amount.toNat else 0) =
      balances token a + if a = toAddr then amount.toNat else 0 := by
  simp only [transferExact, bind_eq_ok, require_eq_ok, pure_eq_ok] at h
  obtain ⟨-, htoken, -, hle, rfl⟩ := h
  refine ⟨htoken, fun other hother => update_of_ne hother _ _, ?_⟩
  intro a
  rw [update_self]
  by_cases hto : a = toAddr
  · subst hto
    rw [update_self]
    by_cases hfrom : a = fromAddr
    · subst hfrom
      simp only [update_self, if_true]
      omega
    · simp [hfrom]
  · rw [update_of_ne hto]
    by_cases hfrom : a = fromAddr
    · subst hfrom
      simp only [update_self, if_true, if_neg hto]
      omega
    · simp [hfrom, hto]

theorem setDeposits_apply (l1Token l2Token : Address) (amount : Uint256)
    (s : L1StandardBridge.State) (l1 l2 : Address) :
    (L1StandardBridge.setDeposits l1Token l2Token amount s).deposits l1 l2 =
      if l1 = l1Token ∧ l2 = l2Token then amount else s.deposits l1 l2 := by
  simp only [L1StandardBridge.setDeposits]
  by_cases h1 : l1 = l1Token
  · subst h1
    by_cases h2 : l2 = l2Token
    · subst h2
      simp
    · simp [h2]
  · simp [h1]

def totalDeposits (s : L1StandardBridge.State) (l1Token : Address) : ℕ :=
  ∑ l2Token, (s.deposits l1Token l2Token).toNat

theorem totalDeposits_change {s s' : L1StandardBridge.State} {l1Token : Address} {a b : ℕ}
    (hpair : (s'.deposits l1Token l2Token).toNat + a = (s.deposits l1Token l2Token).toNat + b)
    (hother : ∀ l1 l2, ¬ (l1 = l1Token ∧ l2 = l2Token) → s'.deposits l1 l2 = s.deposits l1 l2)
    (l1 : Address) :
    totalDeposits s' l1 + (if l1 = l1Token then a else 0) =
      totalDeposits s l1 + if l1 = l1Token then b else 0 := by
  by_cases h1 : l1 = l1Token
  · subst h1
    have hpoint : ∀ l2, (s'.deposits l1 l2).toNat + (if l2 = l2Token then a else 0) =
        (s.deposits l1 l2).toNat + if l2 = l2Token then b else 0 := by
      intro l2
      by_cases h2 : l2 = l2Token
      · subst h2
        simpa using hpair
      · simp [h2, hother l1 l2 (fun h => h2 h.2)]
    have hsum := Finset.sum_congr (rfl : (Finset.univ : Finset Address) = Finset.univ)
      fun l2 _ => hpoint l2
    rw [Finset.sum_add_distrib, Finset.sum_add_distrib, Finset.sum_ite_eq', Finset.sum_ite_eq',
      if_pos (Finset.mem_univ _), if_pos (Finset.mem_univ _)] at hsum
    simpa [totalDeposits] using hsum
  · have hsame : ∀ l2, s'.deposits l1 l2 = s.deposits l1 l2 :=
      fun l2 => hother l1 l2 (fun h => h1 h.1)
    simp [totalDeposits, h1, hsame]

namespace L1StandardBridge

def Call.withdrawn (l1Token l2Token : Address) : Call → ℕ
  | .finalize w => w.amountOf l1Token l2Token
  | _ => 0

def Call.ethWithdrawn : Call → ℕ
  | .finalize w => w.ethAmount
  | _ => 0

/-- The deposits of each pair change by what is sent and paid for it; of no token does the bridge
come to hold less than before, measured against the deposits, and of ETH it gains what it sends. -/
structure Settles (bridge : Address) (call : Call) (s s' : State) (sent : List FinalizeDeposit) :
    Prop where
  deposits : ∀ l1 l2, l1 ≠ 0 → (s'.deposits l1 l2).toNat + call.withdrawn l1 l2 =
    (s.deposits l1 l2).toNat + (sent.map (FinalizeDeposit.amountOf l1 l2)).sum
  surplus : ∀ l1, totalDeposits s' l1 + s.balances l1 bridge ≤
    totalDeposits s l1 + s'.balances l1 bridge
  eth : s.eth + (sent.map (FinalizeDeposit.amountOf 0 OVM_ETH)).sum ≤ s'.eth + call.ethWithdrawn

variable {setup : Setup} {ctx : Context} {s s' : State} {sent : List FinalizeDeposit}
  {call : Call}

theorem initiateETHDeposit_settles {bridge : Address} {value : Uint256}
    (hcall : ∀ l1 l2, call.withdrawn l1 l2 = 0)
    (h : initiateETHDeposit fromAddr toAddr value data s = (s', sent)) :
    Settles bridge call s s' sent := by
  obtain ⟨rfl, rfl⟩ := Prod.mk.inj h
  constructor
  · intro l1 l2 h1
    rw [hcall, map_singleton, sum_singleton, FinalizeDeposit.amountOf_ne (fun h => h1 h.1.symm)]
  · intro l1
    exact le_rfl
  · simp [FinalizeDeposit.amountOf]

/-- The deposits of one pair change, and no less what the bridge holds of its token. -/
theorem settles_of_pair {bridge l1Token : Address} {a b : ℕ} {total : Uint256}
    {balances : Balances} (hpair : total.toNat + a = (s.deposits l1Token l2Token).toNat + b)
    (hothers : ∀ l1, l1 ≠ l1Token → balances l1 = s.balances l1)
    (hheld : s.balances l1Token bridge + b ≤ balances l1Token bridge + a)
    (hcall : ∀ l1 l2, call.withdrawn l1 l2 = if l1Token = l1 ∧ l2Token = l2 then a else 0)
    (hsent : ∀ l1 l2, (sent.map (FinalizeDeposit.amountOf l1 l2)).sum =
      if l1Token = l1 ∧ l2Token = l2 then b else 0) (htoken : l1Token ≠ 0) :
    Settles bridge call s {setDeposits l1Token l2Token total s with balances} sent := by
  have hother : ∀ l1 l2, ¬ (l1 = l1Token ∧ l2 = l2Token) →
      (setDeposits l1Token l2Token total s).deposits l1 l2 = s.deposits l1 l2 := by
    intro l1 l2 hne
    rw [setDeposits_apply, if_neg hne]
  have hchanged : ((setDeposits l1Token l2Token total s).deposits l1Token l2Token).toNat + a =
      (s.deposits l1Token l2Token).toNat + b := by
    rw [setDeposits_apply, if_pos ⟨rfl, rfl⟩, hpair]
  constructor
  · intro l1 l2 _
    rw [hcall, hsent]
    by_cases hsame : l1Token = l1 ∧ l2Token = l2
    · obtain ⟨rfl, rfl⟩ := hsame
      rw [if_pos ⟨rfl, rfl⟩, if_pos ⟨rfl, rfl⟩]
      exact hchanged
    · rw [if_neg hsame, if_neg hsame]
      exact congrArg (fun x : Uint256 => x.toNat + 0)
        (hother l1 l2 fun h => hsame ⟨h.1.symm, h.2.symm⟩)
  · intro l1
    have htotal := totalDeposits_change hchanged hother l1
    simp only [totalDeposits] at htotal ⊢
    by_cases h1 : l1 = l1Token
    · subst h1
      rw [if_pos rfl, if_pos rfl] at htotal
      omega
    · rw [if_neg h1, if_neg h1] at htotal
      have hsame := congrFun (hothers l1 h1) bridge
      omega
  · rw [hsent, if_neg (fun h => htoken h.1)]
    exact Nat.le_add_right _ _

theorem initiateERC20Deposit_settles {l1Token : Address}
    (hcall : ∀ l1 l2, call.withdrawn l1 l2 = 0) (hfrom : fromAddr ≠ setup.bridge)
    (h : initiateERC20Deposit setup l1Token l2Token fromAddr toAddr amount data s =
      .ok (s', sent)) :
    Settles setup.bridge call s s' sent := by
  simp only [initiateERC20Deposit, bind_eq_ok, add_eq_ok, pure_eq_ok, Prod.mk.injEq] at h
  obtain ⟨balances, htransfer, total, htotal, rfl, rfl⟩ := h
  obtain ⟨htoken, hothers, hbalances⟩ := transferExact_eq_ok htransfer
  have hbridge := hbalances setup.bridge
  rw [if_neg hfrom.symm, if_pos rfl] at hbridge
  exact settles_of_pair (a := 0) htotal.symm hothers hbridge.ge
    (fun l1 l2 => by rw [hcall, ite_self])
    (fun l1 l2 => by rw [map_singleton, sum_singleton]; rfl) htoken

theorem sendETH_settles {isContract : Address → Bool} {accepts : Bool}
    (hcall : ∀ l1 l2, call.withdrawn l1 l2 = 0) (heth : call.ethWithdrawn = amount.toNat)
    (h : sendETH setup isContract accepts toAddr amount s = .ok (s', sent)) :
    Settles setup.bridge call s s' sent := by
  simp only [sendETH, bind_eq_ok, require_eq_ok] at h
  obtain ⟨-, hle, h⟩ := h
  by_cases hself : toAddr = setup.bridge
  · rw [if_pos hself] at h
    cases hreceive : receive isContract setup.bridge amount
        {s with eth := s.eth - amount.toNat} with
    | error e =>
      simp only [hreceive] at h
      cases h
    | ok result =>
      simp only [hreceive, pure_eq_ok] at h
      simp only [receive, bind_eq_ok, pure_eq_ok] at hreceive
      obtain ⟨-, -, hresult⟩ := hreceive
      have hback : Settles setup.bridge .receive {s with eth := s.eth - amount.toNat} s' sent :=
        initiateETHDeposit_settles (fun _ _ => rfl) (hresult.trans h)
      have hgain : s.eth - amount.toNat + (sent.map (FinalizeDeposit.amountOf 0 OVM_ETH)).sum ≤
          s'.eth := hback.eth
      refine ⟨?_, hback.surplus, by omega⟩
      intro l1 l2 h1
      rw [hcall]
      exact hback.deposits l1 l2 h1
  · simp only [if_neg hself, bind_eq_ok, require_eq_ok, pure_eq_ok, Prod.mk.injEq] at h
    obtain ⟨-, -, rfl, rfl⟩ := h
    constructor
    · intro l1 l2 _
      rw [hcall]
      rfl
    · intro l1
      exact le_rfl
    · rw [heth]
      simp only [map_nil, sum_nil]
      omega

theorem finalizeERC20Withdrawal_settles {l1Token : Address} {sender : Address}
    (h : finalizeERC20Withdrawal setup sender xDomainMessageSender l1Token l2Token toAddr amount s =
      .ok s') :
    Settles setup.bridge
      (.finalize (.finalizeERC20Withdrawal l1Token l2Token fromAddr toAddr amount data)) s s'
      [] := by
  simp only [finalizeERC20Withdrawal, bind_eq_ok, sub_eq_ok, pure_eq_ok] at h
  obtain ⟨-, -, rest, hrest, balances, htransfer, rfl⟩ := h
  obtain ⟨htoken, hothers, hbalances⟩ := transferExact_eq_ok htransfer
  have hbridge : _ = s.balances l1Token setup.bridge + _ := hbalances setup.bridge
  rw [if_pos rfl] at hbridge
  exact settles_of_pair (b := 0) (by omega) hothers (by omega) (fun _ _ => rfl)
    (fun l1 l2 => by rw [ite_self]; rfl) htoken

theorem exec_finalize_guard {w : Withdrawal} (h : exec setup ctx (.finalize w) s = .ok (s', sent)) :
    ctx.sender = setup.messenger ∧ ctx.xDomainMessageSender = setup.l2TokenBridge := by
  cases w with
  | finalizeETHWithdrawal =>
    simp only [exec, finalizeETHWithdrawal, onlyFromCrossDomainAccount, bind_eq_ok,
      require_eq_ok] at h
    obtain ⟨-, -, -, ⟨-, hsender, hsource⟩, -⟩ := h
    exact ⟨hsender, hsource⟩
  | finalizeERC20Withdrawal =>
    simp only [exec, finalizeERC20Withdrawal, onlyFromCrossDomainAccount, bind_eq_ok,
      require_eq_ok] at h
    obtain ⟨-, -, -, ⟨-, ⟨-, hsender, hsource⟩, -⟩, -⟩ := h
    exact ⟨hsender, hsource⟩

theorem exec_settles (hsender : ctx.sender ≠ setup.bridge)
    (h : exec setup ctx call s = .ok (s', sent)) : Settles setup.bridge call s s' sent := by
  cases call with
  | receive =>
    simp only [exec, receive, bind_eq_ok, pure_eq_ok] at h
    obtain ⟨-, -, h⟩ := h
    exact initiateETHDeposit_settles (fun _ _ => rfl) h
  | depositETH =>
    simp only [exec, depositETH, bind_eq_ok, pure_eq_ok] at h
    obtain ⟨-, -, h⟩ := h
    exact initiateETHDeposit_settles (fun _ _ => rfl) h
  | depositETHTo =>
    exact initiateETHDeposit_settles (fun _ _ => rfl) (Except.ok.inj h)
  | depositERC20 =>
    simp only [exec, depositERC20, bind_eq_ok] at h
    obtain ⟨-, -, -, -, h⟩ := h
    exact initiateERC20Deposit_settles (fun _ _ => rfl) hsender h
  | depositERC20To =>
    simp only [exec, depositERC20To, bind_eq_ok] at h
    obtain ⟨-, -, h⟩ := h
    exact initiateERC20Deposit_settles (fun _ _ => rfl) hsender h
  | donateETH =>
    obtain ⟨rfl, rfl⟩ := Prod.mk.inj (Except.ok.inj h)
    exact ⟨fun _ _ _ => rfl, fun _ => le_rfl, by simp [Call.ethWithdrawn]⟩
  | finalize w =>
    cases w with
    | finalizeETHWithdrawal =>
      simp only [exec, finalizeETHWithdrawal, bind_eq_ok] at h
      obtain ⟨-, -, -, -, h⟩ := h
      exact sendETH_settles (fun _ _ => rfl) rfl h
    | finalizeERC20Withdrawal =>
      simp only [exec, bind_eq_ok, pure_eq_ok, Prod.mk.injEq] at h
      obtain ⟨-, -, t, h, rfl, rfl⟩ := h
      exact finalizeERC20Withdrawal_settles h

end L1StandardBridge

structure L2StandardERC20.Resupplied (t t' : L2StandardERC20) (added removed : ℕ) : Prop where
  l1Token : t'.l1Token = t.l1Token
  l2Bridge : t'.l2Bridge = t.l2Bridge
  totalSupply : t'.totalSupply.toNat + removed = t.totalSupply.toNat + added

namespace L2StandardERC20

variable {sender account : Address} {t t' : L2StandardERC20}

theorem mint_eq_ok (h : t.mint sender account amount = .ok t') :
    sender = t.l2Bridge ∧ t.Resupplied t' amount.toNat 0 := by
  simp only [mint, onlyL2Bridge, bind_eq_ok, require_eq_ok, add_eq_ok, pure_eq_ok] at h
  obtain ⟨-, hsender, -, -, supply, hsupply, balance, -, rfl⟩ := h
  exact ⟨hsender, rfl, rfl, hsupply.symm⟩

theorem burn_eq_ok (h : t.burn sender account amount = .ok t') :
    sender = t.l2Bridge ∧ t.Resupplied t' 0 amount.toNat := by
  simp only [burn, onlyL2Bridge, bind_eq_ok, require_eq_ok, sub_eq_ok, pure_eq_ok] at h
  obtain ⟨-, hsender, -, -, -, -, supply, hsupply, rfl⟩ := h
  exact ⟨hsender, rfl, rfl, by simp only; omega⟩

theorem transfer_eq_ok (h : t.transfer sender account amount = .ok t') : t.Resupplied t' 0 0 := by
  simp only [transfer, bind_eq_ok, pure_eq_ok] at h
  obtain ⟨-, -, -, -, -, -, balance, -, rfl⟩ := h
  exact ⟨rfl, rfl, rfl⟩

theorem exec_l2Bridge {call : Call} (h : t.exec sender call = .ok t') :
    t'.l2Bridge = t.l2Bridge := by
  cases call with
  | mint => exact (mint_eq_ok h).2.l2Bridge
  | burn => exact (burn_eq_ok h).2.l2Bridge
  | transfer => exact (transfer_eq_ok h).l2Bridge

theorem exec_resupplied {call : Call} (hsender : sender ≠ t.l2Bridge)
    (h : t.exec sender call = .ok t') : t.Resupplied t' 0 0 := by
  cases call with
  | mint => exact absurd (mint_eq_ok h).1 hsender
  | burn => exact absurd (burn_eq_ok h).1 hsender
  | transfer => exact transfer_eq_ok h

end L2StandardERC20

/-- The supply of the honest token of `l1Token`; an address without code may still become one. -/
def honestSupply (l1Token : Address) : Contract → Option ℕ
  | .absent => some 0
  | .standard t =>
    if t.l1Token = l1Token ∧ t.l2Bridge = L2_STANDARD_BRIDGE then some t.totalSupply.toNat
    else none
  | .other => none

def ethSupply : Contract → ℕ
  | .standard t => t.totalSupply.toNat
  | _ => 0

variable {removed : ℕ}

theorem honestSupply_resupplied {t t' : L2StandardERC20} {added supply : ℕ} {l1 : Address}
    (h : t.Resupplied t' added removed) (hsupply : honestSupply l1 (.standard t') = some supply) :
    t.l1Token = l1 ∧ honestSupply l1 (.standard t) = some t.totalSupply.toNat ∧
      supply + removed = t.totalSupply.toNat + added := by
  simp only [honestSupply, h.l1Token, h.l2Bridge] at hsupply ⊢
  by_cases hpair : t.l1Token = l1 ∧ t.l2Bridge = L2_STANDARD_BRIDGE
  · rw [if_pos hpair, Option.some.injEq] at hsupply
    rw [if_pos hpair, ← hsupply]
    exact ⟨hpair.1, rfl, h.totalSupply⟩
  · rw [if_neg hpair] at hsupply
    cases hsupply

namespace L2StandardBridge

def HasETH (s : State) : Prop :=
  ∃ t, s OVM_ETH = .standard t ∧ t.l1Token = 0 ∧ t.l2Bridge = L2_STANDARD_BRIDGE

def Call.deposited (l1Token l2Token : Address) : Call → ℕ
  | .finalizeDeposit m => m.amountOf l1Token l2Token
  | _ => 0

structure Settles (call : Call) (s s' : State) (sent : List Withdrawal) : Prop where
  supply : ∀ l1 l2 supply', l1 ≠ 0 → honestSupply l1 (s' l2) = some supply' →
    ∃ supply, honestSupply l1 (s l2) = some supply ∧
      supply' + (sent.map (Withdrawal.amountOf l1 l2)).sum = supply + call.deposited l1 l2
  hasETH : HasETH s'
  eth : ethSupply (s' OVM_ETH) + (sent.map Withdrawal.ethAmount).sum =
    ethSupply (s OVM_ETH) + call.deposited 0 OVM_ETH

variable {answers : Answers} {s s' : State} {sent : List Withdrawal} {call : Call}

variable {t t' : L2StandardERC20} {added : ℕ}

theorem HasETH.update (h : HasETH s) (ht : s OVM_ETH = .standard t)
    (hre : t.Resupplied t' added removed) : HasETH (Function.update s OVM_ETH (.standard t')) := by
  obtain ⟨eth, heth, hl1, hl2⟩ := h
  rw [ht, Contract.standard.injEq] at heth
  subst heth
  exact ⟨t', update_self _ _ _, hre.l1Token.trans hl1, hre.l2Bridge.trans hl2⟩

theorem HasETH.update_ne {contract : Contract} (h : HasETH s) (hne : l2Token ≠ OVM_ETH) :
    HasETH (Function.update s l2Token contract) := by
  obtain ⟨eth, heth, hrest⟩ := h
  exact ⟨eth, by rw [update_of_ne hne.symm, heth], hrest⟩

theorem settles_of_resupplied (heth : HasETH s) (ht : s l2Token = .standard t)
    (hre : t.Resupplied t' added removed) (hsent : ∀ l1 l2, l1 ≠ 0 → (sent.map (Withdrawal.amountOf
      l1 l2)).sum = if t.l1Token = l1 ∧ l2Token = l2 then removed else 0) (htaken : ∀ l1 l2, l1 ≠ 0
      → call.deposited l1 l2 = if t.l1Token = l1 ∧ l2Token = l2 then added else 0)
    (hsentETH : (sent.map Withdrawal.ethAmount).sum = if l2Token = OVM_ETH then removed else 0)
    (htakenETH : call.deposited 0 OVM_ETH = if l2Token = OVM_ETH then added else 0) :
    Settles call s (Function.update s l2Token (.standard t')) sent := by
  constructor
  · intro l1 l2 supply' h1 hsupply
    rw [hsent l1 l2 h1, htaken l1 l2 h1]
    by_cases h2 : l2 = l2Token
    · subst h2
      rw [update_self] at hsupply
      obtain ⟨hl1, hbefore, hchange⟩ := honestSupply_resupplied hre hsupply
      rw [if_pos ⟨hl1, rfl⟩, if_pos ⟨hl1, rfl⟩, ht]
      exact ⟨_, hbefore, hchange⟩
    · rw [update_of_ne h2] at hsupply
      rw [if_neg (fun h => h2 h.2.symm), if_neg (fun h => h2 h.2.symm)]
      exact ⟨supply', hsupply, rfl⟩
  · by_cases h2 : l2Token = OVM_ETH
    · subst h2
      exact heth.update ht hre
    · exact heth.update_ne h2
  · rw [hsentETH, htakenETH]
    by_cases h2 : l2Token = OVM_ETH
    · subst h2
      rw [update_self, ht, if_pos rfl, if_pos rfl]
      exact hre.totalSupply
    · rw [update_of_ne (fun h => h2 h.symm), if_neg h2, if_neg h2]

theorem settles_of_unchanged (heth : HasETH s)
    (hpairs : ∀ l1 l2, honestSupply l1 (s l2) ≠ none →
      (sent.map (Withdrawal.amountOf l1 l2)).sum = call.deposited l1 l2)
    (hsentETH : (sent.map Withdrawal.ethAmount).sum = 0)
    (htakenETH : call.deposited 0 OVM_ETH = 0) : Settles call s s sent := by
  refine ⟨?_, heth, by rw [hsentETH, htakenETH]⟩
  intro l1 l2 supply' _ hsupply
  exact ⟨supply', hsupply, by rw [hpairs l1 l2 (by simp [hsupply])]⟩

theorem HasETH.l1Token_eq (h : HasETH s) (ht : s OVM_ETH = .standard t) : t.l1Token = 0 := by
  obtain ⟨eth, heth, hl1, -⟩ := h
  rw [ht, Contract.standard.injEq] at heth
  rw [heth]
  exact hl1

theorem HasETH.ne_of_other (h : HasETH s) (hother : s l2Token = .other) : l2Token ≠ OVM_ETH := by
  rintro rfl
  obtain ⟨eth, heth, -⟩ := h
  rw [hother] at heth
  cases heth

variable {sender : Address}

theorem initiateWithdrawal_settles {amount : Uint256} (heth : HasETH s)
    (hcall : ∀ l1 l2, call.deposited l1 l2 = 0)
    (h : initiateWithdrawal answers sender l2Token fromAddr toAddr amount data s = .ok (s', sent)) :
    Settles call s s' sent := by
  simp only [initiateWithdrawal, bind_eq_ok, pure_eq_ok, Prod.mk.injEq] at h
  obtain ⟨contract, hburn, l1Token, hl1Token, rfl, rfl⟩ := h
  cases hcontract : s l2Token with
  | absent =>
    rw [hcontract] at hburn
    cases hburn
  | standard t =>
    simp only [hcontract, burn, bind_eq_ok, pure_eq_ok] at hburn
    obtain ⟨t', hburn, rfl⟩ := hburn
    obtain ⟨-, hre⟩ := L2StandardERC20.burn_eq_ok hburn
    obtain rfl : t'.l1Token = l1Token := Except.ok.inj hl1Token
    apply settles_of_resupplied heth hcontract hre
    · intro l1 l2 h1
      rw [hre.l1Token, withdrawalMessage]
      by_cases h2 : l2Token = OVM_ETH
      · subst h2
        have hzero : ¬ (t.l1Token = l1 ∧ OVM_ETH = l2) :=
          fun hpair => h1 (hpair.1.symm.trans (heth.l1Token_eq hcontract))
        simp [Withdrawal.amountOf, if_neg hzero]
      · simp [if_neg h2, Withdrawal.amountOf]
    · intro l1 l2 _
      rw [hcall, ite_self]
    · rw [withdrawalMessage]
      split <;> simp [Withdrawal.ethAmount]
    · rw [hcall, ite_self]
  | other =>
    simp only [hcontract, burn, bind_eq_ok, pure_eq_ok] at hburn
    obtain ⟨-, -, rfl⟩ := hburn
    have hne := heth.ne_of_other hcontract
    rw [← hcontract, update_eq_self]
    apply settles_of_unchanged heth
    · intro l1 l2 hhonest
      have h2 : ¬ (l1Token = l1 ∧ l2Token = l2) := by
        rintro ⟨-, rfl⟩
        exact hhonest (by rw [hcontract]; rfl)
      simp [withdrawalMessage, if_neg hne, Withdrawal.amountOf, hcall, h2]
    · simp [withdrawalMessage, if_neg hne, Withdrawal.ethAmount]
    · exact hcall _ _

theorem HasETH.accepts {answers : Answers} (h : HasETH s) :
    accepts answers 0 (s OVM_ETH) = .ok true := by
  obtain ⟨eth, heth, hl1, -⟩ := h
  rw [heth]
  simp only [L2StandardBridge.accepts, supportsInterface, l1TokenOf, hl1]
  rfl

variable {l1TokenBridge messenger : Address}

theorem finalizeDeposit_settles (heth : HasETH s) (h : finalizeDeposit messenger l1TokenBridge
      sender xDomainMessageSender answers m s = .ok (s', sent)) :
    Settles (.finalizeDeposit m) s s' sent := by
  simp only [finalizeDeposit, bind_eq_ok] at h
  obtain ⟨-, -, accepted, haccepts, h⟩ := h
  cases accepted with
  | true =>
    simp only [if_true, bind_eq_ok, pure_eq_ok, Prod.mk.injEq] at h
    obtain ⟨contract, hmint, rfl, rfl⟩ := h
    cases hcontract : s m.l2Token with
    | absent =>
      rw [hcontract] at hmint
      cases hmint
    | standard t =>
      simp only [hcontract, mint, bind_eq_ok, pure_eq_ok] at hmint
      obtain ⟨t', hmint, rfl⟩ := hmint
      obtain ⟨-, hre⟩ := L2StandardERC20.mint_eq_ok hmint
      have hl1 : m.l1Token = t.l1Token := by
        rw [hcontract] at haccepts
        simpa [accepts, supportsInterface, l1TokenOf, bind, Except.bind, pure, Except.pure]
          using haccepts
      apply settles_of_resupplied heth hcontract hre
      · intro l1 l2 _
        rw [ite_self]
        rfl
      · intro l1 l2 _
        rw [← hl1]
        rfl
      · rw [ite_self]
        rfl
      · by_cases h2 : m.l2Token = OVM_ETH
        · have hzero : m.l1Token = 0 := by
            rw [h2] at hcontract
            exact hl1.trans (heth.l1Token_eq hcontract)
          exact (if_pos ⟨hzero, h2⟩).trans (if_pos h2).symm
        · exact (if_neg (fun hpair => h2 hpair.2)).trans (if_neg h2).symm
    | other =>
      simp only [hcontract, mint, bind_eq_ok, pure_eq_ok] at hmint
      obtain ⟨-, -, rfl⟩ := hmint
      have hne := heth.ne_of_other hcontract
      rw [← hcontract, update_eq_self]
      apply settles_of_unchanged heth
      · intro l1 l2 hhonest
        have h2 : ¬ (m.l1Token = l1 ∧ m.l2Token = l2) := by
          rintro ⟨-, rfl⟩
          exact hhonest (by rw [hcontract]; rfl)
        exact (FinalizeDeposit.amountOf_ne h2).symm
      · rfl
      · exact FinalizeDeposit.amountOf_ne (fun hpair => hne hpair.2)
  | false =>
    simp only [Bool.false_eq_true, if_false, pure_eq_ok, Prod.mk.injEq] at h
    obtain ⟨rfl, rfl⟩ := h
    apply settles_of_unchanged heth
    · intro l1 l2 _
      exact Nat.add_zero _
    · rfl
    · apply FinalizeDeposit.amountOf_ne
      rintro ⟨hl1, hl2⟩
      rw [hl1, hl2, heth.accepts] at haccepts
      cases haccepts

theorem exec_settles {ctx : Context} (heth : HasETH s)
    (h : exec messenger l1TokenBridge ctx call s = .ok (s', sent)) : Settles call s s' sent := by
  cases call with
  | withdraw l2Token amount data => exact initiateWithdrawal_settles heth (fun _ _ => rfl) h
  | withdrawTo =>
    exact initiateWithdrawal_settles heth (fun _ _ => rfl) h
  | finalizeDeposit => exact finalizeDeposit_settles heth h

theorem exec_finalize_guard {ctx : Context}
    (h : exec messenger l1TokenBridge ctx (.finalizeDeposit m) s = .ok (s', sent)) :
    ctx.sender = messenger ∧ ctx.xDomainMessageSender = l1TokenBridge := by
  simp only [exec, finalizeDeposit, onlyFromCrossDomainAccount, bind_eq_ok, require_eq_ok] at h
  obtain ⟨-, ⟨-, hsender, hsource⟩, -⟩ := h
  exact ⟨hsender, hsource⟩

end L2StandardBridge

end Bridge
