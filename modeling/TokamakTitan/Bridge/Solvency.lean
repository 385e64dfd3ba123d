import TokamakTitan.Bridge.Effects

/-! The two bridges and the messages between them, over all runs: the L1 bridge holds what it owes.
-/
namespace Bridge
open Checked Abi Function List

structure Deployment where
  l1Bridge : Address
  l1Messenger : Address
  l2Messenger : Address
  distinct : l1Messenger ≠ l1Bridge

def Deployment.setup (d : Deployment) : L1StandardBridge.Setup :=
  ⟨d.l1Bridge, d.l1Messenger, L2_STANDARD_BRIDGE⟩

/-- Both chains, and the messages not yet delivered. The last two fields record what was deposited
and paid out for each pair. -/
structure System where
  l1 : L1StandardBridge.State
  l2 : L2StandardBridge.State
  toL2 : List FinalizeDeposit
  toL1 : List Withdrawal
  deposited : Address → Address → ℕ
  paid : Address → Address → ℕ

namespace System

def init (eth : ℕ) (balances : Balances) : System where
  l1 := ⟨fun _ _ => 0, eth, balances⟩
  l2 := Function.update (fun _ => .absent) OVM_ETH
    (.standard (L2StandardERC20.deploy L2_STANDARD_BRIDGE 0))
  toL2 := []
  toL1 := []
  deposited _ _ := 0
  paid _ _ := 0

def afterL1 (s : System) (l1 : L1StandardBridge.State) (sent : List FinalizeDeposit) : System :=
  {s with
    l1
    toL2 := s.toL2 ++ sent
    deposited := fun l1Token l2Token =>
      s.deposited l1Token l2Token + (sent.map (FinalizeDeposit.amountOf l1Token l2Token)).sum}

/-- The steps of the two chains. A message is delivered when its call succeeds, in any order. The
messenger makes other calls too, but not in the name of the other bridge. Calls that a token or a
receiver of ETH makes while it is called are steps of their own: the bridges keep nothing in memory
that they could change. -/
inductive Step (d : Deployment) : System → System → Prop
  | l1Call {s : System} {l1 : L1StandardBridge.State} {sent : List FinalizeDeposit}
      (ctx : L1StandardBridge.Context) (call : L1StandardBridge.Call)
      (other : ctx.sender ≠ d.l1Bridge)
      (outside : ¬ (ctx.sender = d.l1Messenger ∧ ctx.xDomainMessageSender = L2_STANDARD_BRIDGE))
      (ok : L1StandardBridge.exec d.setup ctx call s.l1 = .ok (l1, sent)) :
      Step d s (s.afterL1 l1 sent)
  | deliverL1 {s : System} {l1 : L1StandardBridge.State} {sent : List FinalizeDeposit}
      {before after : List Withdrawal} {w : Withdrawal} (ctx : L1StandardBridge.Context)
      (pending : s.toL1 = before ++ w :: after) (sender : ctx.sender = d.l1Messenger)
      (source : ctx.xDomainMessageSender = L2_STANDARD_BRIDGE)
      (ok : L1StandardBridge.exec d.setup ctx (.finalize w) s.l1 = .ok (l1, sent)) :
      Step d s {s.afterL1 l1 sent with
        toL1 := before ++ after
        paid := fun l1Token l2Token => s.paid l1Token l2Token + w.amountOf l1Token l2Token}
  -- What others do with the L1 tokens leaves the bridge its own; ETH can be forced on it.
  | l1Tokens {s : System} (balances : Balances) (eth : ℕ)
      (kept : ∀ token, s.l1.balances token d.l1Bridge ≤ balances token d.l1Bridge)
      (gained : s.l1.eth ≤ eth) :
      Step d s {s with l1 := {s.l1 with balances, eth}}
  | l2Call {s : System} {l2 : L2StandardBridge.State} {sent : List Withdrawal}
      (ctx : L2StandardBridge.Context) (call : L2StandardBridge.Call)
      (outside : ¬ (ctx.sender = d.l2Messenger ∧ ctx.xDomainMessageSender = d.l1Bridge))
      (ok : L2StandardBridge.exec d.l2Messenger d.l1Bridge ctx call s.l2 = .ok (l2, sent)) :
      Step d s {s with l2, toL1 := s.toL1 ++ sent}
  | deliverL2 {s : System} {l2 : L2StandardBridge.State} {sent : List Withdrawal}
      {before after : List FinalizeDeposit} {m : FinalizeDeposit} (ctx : L2StandardBridge.Context)
      (pending : s.toL2 = before ++ m :: after) (sender : ctx.sender = d.l2Messenger)
      (source : ctx.xDomainMessageSender = d.l1Bridge)
      (ok : L2StandardBridge.exec d.l2Messenger d.l1Bridge ctx (.finalizeDeposit m) s.l2 =
        .ok (l2, sent)) :
      Step d s {s with l2, toL2 := before ++ after, toL1 := s.toL1 ++ sent}
  | deploy {s : System} (l2Token : Address) (contract : Contract) (absent : s.l2 l2Token = .absent)
      (fresh : contract = .other ∨
        ∃ l2Bridge l1Token, contract = .standard (L2StandardERC20.deploy l2Bridge l1Token)) :
      Step d s {s with l2 := Function.update s.l2 l2Token contract}
  | tokenCall {s : System} {t t' : L2StandardERC20} (sender l2Token : Address)
      (call : L2StandardERC20.Call) (token : s.l2 l2Token = .standard t)
      (other : sender ≠ L2_STANDARD_BRIDGE) (ok : t.exec sender call = .ok t') :
      Step d s {s with l2 := Function.update s.l2 l2Token (.standard t')}

def Reachable (d : Deployment) (s : System) : Prop :=
  ∃ eth balances, Relation.ReflTransGen (Step d) (init eth balances) s

/-- The undelivered deposits of a pair; those of ETH are the pair of zero and `OVM_ETH`. -/
def pendingDeposits (s : System) (l1Token l2Token : Address) : ℕ :=
  (s.toL2.map (FinalizeDeposit.amountOf l1Token l2Token)).sum

def pendingWithdrawals (s : System) (l1Token l2Token : Address) : ℕ :=
  (s.toL1.map (Withdrawal.amountOf l1Token l2Token)).sum

def pendingETH (s : System) : ℕ := (s.toL1.map Withdrawal.ethAmount).sum

/-- The L1 bridge covers the deposits of every token; the deposits of a pair with an honest token,
and ETH, are the supply and what is on its way; and what was paid for a pair had been deposited for
it. -/
structure Solvent (d : Deployment) (s : System) : Prop where
  covered : ∀ l1, totalDeposits s.l1 l1 ≤ s.l1.balances l1 d.l1Bridge
  backed : ∀ l1 l2 supply, l1 ≠ 0 → honestSupply l1 (s.l2 l2) = some supply →
    (s.l1.deposits l1 l2).toNat =
      supply + s.pendingDeposits l1 l2 + s.pendingWithdrawals l1 l2
  hasETH : L2StandardBridge.HasETH s.l2
  eth : ethSupply (s.l2 OVM_ETH) + s.pendingDeposits 0 OVM_ETH + s.pendingETH ≤ s.l1.eth
  isolated : ∀ l1 l2, l1 ≠ 0 →
    (s.l1.deposits l1 l2).toNat + s.paid l1 l2 = s.deposited l1 l2

theorem Solvent.init (d : Deployment) (eth : ℕ) (balances : Balances) :
    Solvent d (System.init eth balances) where
  covered := by simp [totalDeposits, System.init]
  backed := by
    intro l1 l2 supply h1 hsupply
    have hzero : supply = 0 := by
      by_cases h2 : l2 = OVM_ETH
      · subst h2
        simp [System.init, honestSupply, L2StandardERC20.deploy] at hsupply
        exact hsupply.2.symm
      · simp [System.init, h2, honestSupply] at hsupply
        exact hsupply.symm
    simp [System.init, pendingDeposits, pendingWithdrawals, hzero]
  hasETH := ⟨L2StandardERC20.deploy L2_STANDARD_BRIDGE 0, by simp [System.init], rfl, rfl⟩
  eth := by
    simp [System.init, pendingDeposits, pendingETH, ethSupply, L2StandardERC20.deploy]
  isolated := by simp [System.init]

variable {d : Deployment} {s : System}

theorem pendingDeposits_append (s : System) (l1 : L1StandardBridge.State)
    (sent : List FinalizeDeposit) (l1Token l2Token : Address) :
    (s.afterL1 l1 sent).pendingDeposits l1Token l2Token = s.pendingDeposits l1Token l2Token +
      (sent.map (FinalizeDeposit.amountOf l1Token l2Token)).sum := by
  simp [pendingDeposits, afterL1]

theorem sum_map_remove {α : Type} {xs before after : List α} {x : α}
    (h : xs = before ++ x :: after) (f : α → ℕ) :
    (xs.map f).sum = ((before ++ after).map f).sum + f x := by
  simp only [h, map_append, map_cons, sum_append, sum_cons]
  omega

variable (h : Solvent d s)
include h

theorem Solvent.settleL1 {call : L1StandardBridge.Call} {l1 : L1StandardBridge.State}
    {sent : List FinalizeDeposit} {toL1 : List Withdrawal} {paid : Address → Address → ℕ}
    (hsettles : L1StandardBridge.Settles d.l1Bridge call s.l1 l1 sent)
    (hwithdrawn : ∀ l1Token l2Token, s.pendingWithdrawals l1Token l2Token = (toL1.map
      (Withdrawal.amountOf l1Token l2Token)).sum + call.withdrawn l1Token l2Token)
    (heth : s.pendingETH = (toL1.map Withdrawal.ethAmount).sum + call.ethWithdrawn)
    (hpaid : ∀ l1Token l2Token, paid l1Token l2Token = s.paid l1Token l2Token + call.withdrawn
      l1Token l2Token) :
    Solvent d {s.afterL1 l1 sent with toL1, paid} where
  covered := by
    intro l1Token
    have hcovered := h.covered l1Token
    have hsurplus := hsettles.surplus l1Token
    simp only [System.afterL1]
    omega
  backed := by
    intro l1Token l2Token supply h1 hsupply
    have hbacked := h.backed l1Token l2Token supply h1 hsupply
    have hdeposits := hsettles.deposits l1Token l2Token h1
    have hsent := pendingDeposits_append s l1 sent l1Token l2Token
    rw [hwithdrawn] at hbacked
    simp only [System.afterL1, pendingWithdrawals, pendingDeposits] at hbacked hsent ⊢
    omega
  hasETH := h.hasETH
  eth := by
    have hbefore := h.eth
    have hgain := hsettles.eth
    have hsent := pendingDeposits_append s l1 sent 0 OVM_ETH
    rw [heth] at hbefore
    simp only [System.afterL1, pendingETH, pendingDeposits] at hbefore hsent ⊢
    omega
  isolated := by
    intro l1Token l2Token h1
    have hbefore := h.isolated l1Token l2Token h1
    have hdeposits := hsettles.deposits l1Token l2Token h1
    simp only [System.afterL1, hpaid]
    omega

variable {l2 : L2StandardBridge.State}

theorem Solvent.settleL2 {call : L2StandardBridge.Call} {sent : List Withdrawal}
    {toL2 : List FinalizeDeposit} (hsettles : L2StandardBridge.Settles call s.l2 l2 sent)
    (hdeposited : ∀ l1Token l2Token, s.pendingDeposits l1Token l2Token = (toL2.map
      (FinalizeDeposit.amountOf l1Token l2Token)).sum + call.deposited l1Token l2Token) :
    Solvent d {s with l2, toL2, toL1 := s.toL1 ++ sent} where
  covered := h.covered
  backed := by
    intro l1Token l2Token supply' h1 hsupply'
    obtain ⟨supply, hsupply, hchange⟩ := hsettles.supply l1Token l2Token supply' h1 hsupply'
    have hbacked := h.backed l1Token l2Token supply h1 hsupply
    rw [hdeposited] at hbacked
    simp only [pendingWithdrawals, pendingDeposits, map_append, sum_append] at hbacked ⊢
    omega
  hasETH := hsettles.hasETH
  eth := by
    have hbefore := h.eth
    have hchange := hsettles.eth
    rw [hdeposited] at hbefore
    simp only [pendingETH, pendingDeposits, map_append, sum_append] at hbefore ⊢
    omega
  isolated := h.isolated

theorem Solvent.l2Change (hsupply : ∀ l1Token l2Token supply, honestSupply l1Token (l2 l2Token) =
      some supply → honestSupply l1Token (s.l2 l2Token) = some supply)
    (hETH : L2StandardBridge.HasETH l2) (heth : ethSupply (l2 OVM_ETH) = ethSupply (s.l2 OVM_ETH)) :
    Solvent d {s with l2} where
  covered := h.covered
  backed := fun l1Token l2Token supply h1 hafter =>
    h.backed l1Token l2Token supply h1 (hsupply l1Token l2Token supply hafter)
  hasETH := hETH
  eth := by
    have hbefore := h.eth
    simp only [heth]
    exact hbefore
  isolated := h.isolated

theorem Solvent.deploy {l2Token : Address} {contract : Contract} (habsent : s.l2 l2Token = .absent)
    (hfresh : contract = .other ∨ ∃ l2Bridge l1Token, contract = .standard (L2StandardERC20.deploy
      l2Bridge l1Token)) : Solvent d {s with l2 := update s.l2 l2Token contract} := by
  have hne : l2Token ≠ OVM_ETH := by
    rintro rfl
    obtain ⟨eth, heth, -⟩ := h.hasETH
    rw [habsent] at heth
    cases heth
  apply h.l2Change
  · intro l1 l2 supply hsupply
    by_cases h2 : l2 = l2Token
    · subst h2
      rw [update_self] at hsupply
      rw [habsent]
      rcases hfresh with rfl | ⟨l2Bridge, l1Token, rfl⟩
      · cases hsupply
      · simp only [honestSupply] at hsupply
        split at hsupply
        · exact hsupply
        · cases hsupply
    · rw [update_of_ne h2] at hsupply
      exact hsupply
  · exact h.hasETH.update_ne hne
  · rw [update_of_ne hne.symm]

theorem Solvent.tokenCall {t t' : L2StandardERC20} {sender l2Token : Address}
    {call : L2StandardERC20.Call} (htoken : s.l2 l2Token = .standard t)
    (hother : sender ≠ L2_STANDARD_BRIDGE) (hok : t.exec sender call = .ok t') :
    Solvent d {s with l2 := update s.l2 l2Token (.standard t')} := by
  by_cases hbridge : t.l2Bridge = L2_STANDARD_BRIDGE
  · have hre := L2StandardERC20.exec_resupplied (hbridge ▸ hother) hok
    have hsettles : L2StandardBridge.Settles (.withdraw 0 0 []) s.l2
        (update s.l2 l2Token (.standard t')) [] := by
      apply L2StandardBridge.settles_of_resupplied h.hasETH htoken hre <;>
        simp [L2StandardBridge.Call.deposited]
    simpa using h.settleL2 hsettles (fun _ _ => rfl)
  · have hne : l2Token ≠ OVM_ETH := by
      rintro rfl
      obtain ⟨eth, heth, -, hl2⟩ := h.hasETH
      rw [htoken, Contract.standard.injEq] at heth
      exact hbridge (heth ▸ hl2)
    apply h.l2Change
    · intro l1 l2 supply hsupply
      by_cases h2 : l2 = l2Token
      · subst h2
        rw [update_self, honestSupply, L2StandardERC20.exec_l2Bridge hok,
          if_neg (fun hpair => hbridge hpair.2)] at hsupply
        cases hsupply
      · rw [update_of_ne h2] at hsupply
        exact hsupply
    · exact h.hasETH.update_ne hne
    · rw [update_of_ne hne.symm]

theorem Solvent.step {s' : System} (hstep : Step d s s') : Solvent d s' := by
  cases hstep with
  | l1Call ctx call other outside ok =>
    have hsettles := L1StandardBridge.exec_settles other ok
    cases call with
    | finalize => exact absurd (L1StandardBridge.exec_finalize_guard ok) outside
    | receive | depositETH | depositETHTo | depositERC20 | depositERC20To | donateETH =>
      exact h.settleL1 hsettles (fun _ _ => rfl) rfl (fun _ _ => rfl)
  | deliverL1 ctx pending sender source ok =>
    have hother : ctx.sender ≠ d.setup.bridge := by
      rw [sender]
      exact d.distinct
    exact h.settleL1 (L1StandardBridge.exec_settles hother ok)
      (fun _ _ => sum_map_remove pending _) (sum_map_remove pending _) (fun _ _ => rfl)
  | l1Tokens balances eth kept gained =>
    exact ⟨fun l1 => (h.covered l1).trans (kept l1), h.backed, h.hasETH, h.eth.trans gained,
      h.isolated⟩
  | l2Call ctx call outside ok =>
    have hsettles := L2StandardBridge.exec_settles h.hasETH ok
    cases call with
    | finalizeDeposit => exact absurd (L2StandardBridge.exec_finalize_guard ok) outside
    | withdraw | withdrawTo => exact h.settleL2 hsettles (fun _ _ => rfl)
  | deliverL2 ctx pending sender source ok =>
    exact h.settleL2 (L2StandardBridge.exec_settles h.hasETH ok)
      (fun _ _ => sum_map_remove pending _)
  | deploy l2Token contract absent fresh => exact h.deploy absent fresh
  | tokenCall sender l2Token call token other ok => exact h.tokenCall token other ok

omit h in
theorem Reachable.solvent (h : Reachable d s) : Solvent d s := by
  obtain ⟨eth, balances, hrun⟩ := h
  induction hrun with
  | refl => exact Solvent.init d eth balances
  | tail _ hstep ih => exact ih.step hstep

omit h in
/-- Solvency and isolation of the pairs. Zero is not an L1 token: its pair with `OVM_ETH` stands
for ETH. -/
theorem standard_bridge_solvent (h : Reachable d s) :
    (∀ l1Token, ∑ l2Token, (s.l1.deposits l1Token l2Token).toNat ≤
      s.l1.balances l1Token d.l1Bridge) ∧
    (∀ l1Token l2Token t, l1Token ≠ 0 → s.l2 l2Token = .standard t → t.l1Token = l1Token →
      t.l2Bridge = L2_STANDARD_BRIDGE → (s.l1.deposits l1Token l2Token).toNat =
        t.totalSupply.toNat + s.pendingDeposits l1Token l2Token +
          s.pendingWithdrawals l1Token l2Token) ∧
    (∃ t, s.l2 OVM_ETH = .standard t ∧
      t.totalSupply.toNat + s.pendingDeposits 0 OVM_ETH + s.pendingETH ≤ s.l1.eth) ∧
    ∀ l1Token l2Token, l1Token ≠ 0 →
      (s.l1.deposits l1Token l2Token).toNat + s.paid l1Token l2Token =
        s.deposited l1Token l2Token := by
  have hsolvent := h.solvent
  refine ⟨hsolvent.covered, ?_, ?_, hsolvent.isolated⟩
  · intro l1Token l2Token t h1 ht hl1 hl2
    apply hsolvent.backed l1Token l2Token _ h1
    rw [ht, honestSupply, if_pos ⟨hl1, hl2⟩]
  · obtain ⟨t, ht, -⟩ := hsolvent.hasETH
    have heth := hsolvent.eth
    rw [ht] at heth
    exact ⟨t, ht, heth⟩

end System

def payDeployment : Deployment := ⟨0x1, 0x2, 0x3, by decide⟩

def payBalances : Balances := fun token account =>
  if token = 0x70 ∧ account = 0x11 then 10 else 0

variable (sender xDomainMessageSender : Address)

def payL1Context : L1StandardBridge.Context :=
  ⟨sender, 0, xDomainMessageSender, fun _ => false, true⟩

def payL2Context : L2StandardBridge.Context :=
  ⟨sender, xDomainMessageSender, ⟨false, .error .bare, .error .bare, .error .bare⟩⟩

theorem pay_run :
    ∃ s, System.Reachable payDeployment s ∧ s.l1.deposits 0x70 0x80 = 3 ∧ s.paid 0x70 0x80 = 2 := by
  refine ⟨_, ⟨0, payBalances, ((((Relation.ReflTransGen.refl.tail
    (System.Step.deploy 0x80 (.standard (L2StandardERC20.deploy L2_STANDARD_BRIDGE 0x70)) rfl
      (.inr ⟨_, _, rfl⟩))).tail
    (.l1Call (payL1Context 0x11 0) (.depositERC20 0x70 0x80 5 []) (by decide) (by decide) rfl)).tail
    (.deliverL2 (payL2Context 0x3 0x1) (nil_append _).symm rfl rfl rfl)).tail
    (.l2Call (payL2Context 0x11 0) (.withdraw 0x80 2 []) (by decide) rfl)).tail
    (.deliverL1 (payL1Context 0x2 L2_STANDARD_BRIDGE) (nil_append _).symm rfl rfl rfl)⟩,
    ?_, ?_⟩
  · rfl
  · rfl

theorem standard_bridge_solvent_run :
    ∃ s, System.Reachable payDeployment s ∧ s.l1.deposits 0x70 0x80 = 3 ∧ s.paid 0x70 0x80 = 2 ∧
      ∑ l2Token, (s.l1.deposits 0x70 l2Token).toNat ≤ s.l1.balances 0x70 payDeployment.l1Bridge ∧
      (s.l1.deposits 0x70 0x80).toNat + s.paid 0x70 0x80 = s.deposited 0x70 0x80 := by
  obtain ⟨s, hreachable, hdeposits, hpaid⟩ := pay_run
  obtain ⟨hcovered, -, -, hisolated⟩ := System.standard_bridge_solvent hreachable
  exact ⟨s, hreachable, hdeposits, hpaid, hcovered 0x70, hisolated 0x70 0x80 (by decide)⟩

end Bridge
