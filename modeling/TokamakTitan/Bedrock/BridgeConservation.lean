import TokamakTitan.Bedrock.StandardBridge

/-! What the two bridges hold, over all runs: the deposits of a pair are the supply of its mintable
token and what is on its way, and ETH stays in a bridge only if a withdrawal of tokens carries it.
-/
namespace Bedrock.StandardBridge
open Checked Function
open Messaging (L2_CROSS_DOMAIN_MESSENGER)

variable (localToken remoteToken : Address)

def Finalize.amountOf : Finalize → ℕ
  | finalizeBridgeETH .. => 0
  | finalizeBridgeERC20 localToken' remoteToken' _ _ amount _ =>
    if localToken' = localToken ∧ remoteToken' = remoteToken then amount.toNat else 0

def amounts (ms : List Sent) : ℕ :=
  (ms.map fun m => m.call.amountOf localToken remoteToken).sum

@[simp] theorem amounts_nil (l r : Address) : amounts l r [] = 0 := rfl

@[simp] theorem amounts_cons (l r : Address) (m : Sent) (ms : List Sent) :
    amounts l r (m :: ms) = m.call.amountOf l r + amounts l r ms := by
  simp [amounts]

@[simp] theorem amounts_append (l r : Address) (ms ms' : List Sent) :
    amounts l r (ms ++ ms') = amounts l r ms + amounts l r ms' := by
  simp [amounts]

/-- A token that moves exactly, and a mintable token that stands for it on the other chain. -/
structure HonestPair (d : Deployment) (side : Side) (localToken remoteToken : Address) : Prop where
  held : d.kind side localToken = .exact
  minted : d.kind side.other remoteToken = .mintable (d.bridge side.other) localToken

/-- What a call does to the accounts of honest pairs, where `finalized` is what it finalizes of
them. -/
structure Effect (d : Deployment) (side : Side) (finalized : Address → Address → ℕ)
    (s s' : Chain) (sent : List Sent) : Prop where
  deposits : ∀ l r, d.kind side l = .exact →
    (s'.deposits l r).toNat + finalized l r = (s.deposits l r).toNat + amounts r l sent
  totalSupply : ∀ l r, d.kind side r = .mintable (d.bridge side) l →
    (s'.totalSupply r).toNat + amounts l r sent = (s.totalSupply r).toNat + finalized r l

variable {amount : Uint256} {toAddr fromAddr remoteToken localToken token l : Address}
  {d : Deployment} {side : Side} {env : Env}

section Tokens

variable {s s' : Chain}

/-- The bridge keeps its deposits and its ETH, and only the supply of the called token can change,
by `minted` less `burnt`. -/
structure TokenEffect (d : Deployment) (side : Side) (token : Address) (minted burnt : ℕ)
    (s s' : Chain) : Prop where
  deposits : s'.deposits = s.deposits
  balance : s'.balance = s.balance
  others : ∀ r, r ≠ token → s'.totalSupply r = s.totalSupply r
  totalSupply : ∀ bridge l, d.kind side token = .mintable bridge l →
    (s'.totalSupply token).toNat + burnt = (s.totalSupply token).toNat + minted

theorem TokenEffect.of_other (hkind : d.kind side token = .other) (minted burnt : ℕ) :
    TokenEffect d side token minted burnt s s := by
  refine ⟨rfl, rfl, fun _ _ => rfl, fun bridge l h => ?_⟩
  rw [hkind] at h
  cases h

theorem mint_eq_ok (h : mint d side env token toAddr amount s = .ok s') :
    TokenEffect d side token amount.toNat 0 s s' := by
  unfold mint at h
  split at h
  next bridge remoteToken hkind =>
    simp only [bind_eq_ok, pure_eq_ok] at h
    obtain ⟨-, -, -, -, supply, hsupply, balance, -, rfl⟩ := h
    refine ⟨rfl, rfl, fun r hr => update_of_ne hr _ _, fun _ _ _ => ?_⟩
    simp only [setBalance, update_self]
    exact (add_eq_ok.mp hsupply).symm
  next => cases h
  next hkind =>
    obtain ⟨u, -, hs⟩ := bind_eq_ok.mp h
    rw [← pure_eq_ok.mp hs]
    exact .of_other hkind _ _

theorem burn_eq_ok (h : burn d side env token fromAddr amount s = .ok s') :
    TokenEffect d side token 0 amount.toNat s s' := by
  unfold burn at h
  split at h
  next bridge remoteToken hkind =>
    simp only [bind_eq_ok, pure_eq_ok] at h
    obtain ⟨-, -, -, -, -, -, supply, hsupply, rfl⟩ := h
    refine ⟨rfl, rfl, fun r hr => update_of_ne hr _ _, fun _ _ _ => ?_⟩
    have hsub := sub_eq_ok.mp hsupply
    simp only [setBalance, update_self]
    omega
  next => cases h
  next hkind =>
    obtain ⟨u, -, hs⟩ := bind_eq_ok.mp h
    rw [← pure_eq_ok.mp hs]
    exact .of_other hkind _ _

theorem transfer_eq_ok (h : transfer d side env token fromAddr toAddr amount s = .ok s') :
    s'.deposits = s.deposits ∧ s'.balance = s.balance ∧ s'.totalSupply = s.totalSupply := by
  unfold transfer at h
  split at h
  next => cases h
  next =>
    simp only [bind_eq_ok, pure_eq_ok] at h
    obtain ⟨-, -, balance, -, rfl⟩ := h
    exact ⟨rfl, rfl, rfl⟩
  next =>
    obtain ⟨u, -, hs⟩ := bind_eq_ok.mp h
    rw [← pure_eq_ok.mp hs]
    exact ⟨rfl, rfl, rfl⟩

theorem isOptimismMintableERC20_of_kind {bridge : Address}
    (h : d.kind side token = .mintable bridge l) :
    isOptimismMintableERC20 d side env token = true := by
  rw [isOptimismMintableERC20, h]

theorem kind_ne_exact (h : isOptimismMintableERC20 d side env token = true) :
    d.kind side token ≠ .exact := by
  intro hkind
  rw [isOptimismMintableERC20, hkind] at h
  cases h

theorem eq_of_isCorrectTokenPair {otherToken bridge : Address} {correct : Bool}
    (h : isCorrectTokenPair d side env token otherToken = .ok correct) (hcorrect : correct = true)
    (hkind : d.kind side token = .mintable bridge l) : otherToken = l := by
  simp only [isCorrectTokenPair, l1Token, hkind, ok_bind, pure_eq_ok] at h
  rw [← h] at hcorrect
  exact of_decide_eq_true hcorrect

theorem setDeposits_of_ne {r : Address} (h : ¬ (localToken = l ∧ remoteToken = r)) :
    (setDeposits localToken remoteToken amount s).deposits l r = s.deposits l r := by
  by_cases hl : l = localToken
  · subst hl
    have hr : r ≠ remoteToken := fun hr => h ⟨rfl, hr.symm⟩
    simp [setDeposits, update_of_ne hr]
  · simp [setDeposits, update_of_ne hl]

theorem setDeposits_self (localToken remoteToken : Address) (amount : Uint256) :
    (setDeposits localToken remoteToken amount s).deposits localToken remoteToken = amount := by
  simp [setDeposits]

end Tokens

variable {minGasLimit : Uint32} {sent : List Sent}

section Functions

variable {s s' : Chain}

/-- A transfer through the bridge: `up` goes into the deposits or out of the supply, and `down` the
other way. -/
structure PairEffect (d : Deployment) (side : Side) (localToken remoteToken : Address)
    (up down : ℕ) (s s' : Chain) : Prop where
  balance : s'.balance = s.balance
  deposits : ∀ l r, d.kind side l = .exact →
    (s'.deposits l r).toNat + (if localToken = l ∧ remoteToken = r then down else 0) =
      (s.deposits l r).toNat + if localToken = l ∧ remoteToken = r then up else 0
  totalSupply : ∀ l r, d.kind side r = .mintable (d.bridge side) l →
    (s'.totalSupply r).toNat + (if localToken = r ∧ remoteToken = l then up else 0) =
      (s.totalSupply r).toNat + if localToken = r ∧ remoteToken = l then down else 0

variable {up down : ℕ}

theorem PairEffect.of_token {correct : Bool}
    (hmintable : isOptimismMintableERC20 d side env localToken = true)
    (hpair : isCorrectTokenPair d side env localToken remoteToken = .ok correct)
    (hcorrect : correct = true) (heffect : TokenEffect d side localToken down up s s') :
    PairEffect d side localToken remoteToken up down s s' := by
  refine ⟨heffect.balance, ?_, ?_⟩
  · intro l r hl
    have hne : localToken ≠ l := by
      rintro rfl
      exact kind_ne_exact hmintable hl
    simp [hne, heffect.deposits]
  · intro l r hr
    by_cases heq : localToken = r
    · subst heq
      simpa [eq_of_isCorrectTokenPair hpair hcorrect hr] using heffect.totalSupply _ _ hr
    · simp [heq, heffect.others r (Ne.symm heq)]

theorem PairEffect.of_deposits {total : Uint256}
    (hmintable : ¬ isOptimismMintableERC20 d side env localToken = true)
    (hbalance : s'.balance = s.balance) (hsupply : s'.totalSupply = s.totalSupply)
    (hdeposits : s'.deposits = (setDeposits localToken remoteToken total s).deposits)
    (htotal : total.toNat + down = (s.deposits localToken remoteToken).toNat + up) :
    PairEffect d side localToken remoteToken up down s s' := by
  refine ⟨hbalance, ?_, ?_⟩
  · intro l r _
    rw [hdeposits]
    by_cases heq : localToken = l ∧ remoteToken = r
    · obtain ⟨rfl, rfl⟩ := heq
      simpa [setDeposits_self] using htotal
    · simp [setDeposits_of_ne heq, heq]
  · intro l r hr
    have hne : localToken ≠ r := by
      rintro rfl
      exact hmintable (isOptimismMintableERC20_of_kind hr)
    simp [hne, hsupply]

theorem takeERC20_eq_ok
    (h : takeERC20 d side env localToken remoteToken fromAddr amount s = .ok s') :
    PairEffect d side localToken remoteToken amount.toNat 0 s s' := by
  unfold takeERC20 at h
  split at h
  next hmintable =>
    simp only [bind_eq_ok, require_eq_ok] at h
    obtain ⟨correct, hpair, u, hcorrect, hburn⟩ := h
    exact .of_token hmintable hpair hcorrect (burn_eq_ok hburn)
  next hmintable =>
    simp only [safeTransferFrom, bind_eq_ok, pure_eq_ok] at h
    obtain ⟨moved, ⟨u, -, hmoved⟩, total, htotal, rfl⟩ := h
    obtain ⟨hdeposits, hbalance, hsupply⟩ := transfer_eq_ok hmoved
    rw [hdeposits] at htotal
    refine .of_deposits hmintable hbalance hsupply ?_ (add_eq_ok.mp htotal).symm
    simp [setDeposits, hdeposits]

variable {extraData : Abi.Bytes}

theorem initiateBridgeERC20_eq_ok (h : initiateBridgeERC20 d side env localToken remoteToken
      fromAddr toAddr amount minGasLimit extraData s = .ok (s', sent)) :
    s'.balance = s.balance ∧ Effect d side (fun _ _ => 0) s s' sent := by
  simp only [initiateBridgeERC20, bind_eq_ok, pure_eq_ok, Prod.mk.injEq] at h
  obtain ⟨taken, htaken, rfl, rfl⟩ := h
  have heffect := takeERC20_eq_ok htaken
  refine ⟨heffect.balance, ?_, ?_⟩
  · intro l r hl
    simpa [Finalize.amountOf, and_comm] using heffect.deposits l r hl
  · intro l r hr
    simpa [Finalize.amountOf, and_comm] using heffect.totalSupply l r hr

theorem initiateBridgeETH_eq_ok (d : Deployment) (side : Side)
    (h : initiateBridgeETH env fromAddr toAddr amount minGasLimit extraData s = .ok (s', sent)) :
    s'.balance = s.balance - env.value.toNat ∧ Effect d side (fun _ _ => 0) s s' sent := by
  simp only [initiateBridgeETH, bind_eq_ok, require_eq_ok, pure_eq_ok, Prod.mk.injEq] at h
  obtain ⟨u, hvalue, rfl, rfl⟩ := h
  rw [hvalue]
  exact ⟨rfl, fun _ _ _ => rfl, fun _ _ _ => rfl⟩

theorem finalizeBridgeETH_eq_ok (h : finalizeBridgeETH d side env toAddr amount s = .ok s') :
    FromOtherBridge d side env ∧ s' = {s with balance := s.balance - env.value.toNat} := by
  simp only [finalizeBridgeETH, onlyOtherBridge, bind_eq_ok, require_eq_ok, pure_eq_ok] at h
  obtain ⟨-, hsource, u, hvalue, -, -, -, -, -, -, rfl⟩ := h
  rw [hvalue]
  exact ⟨hsource, rfl⟩

theorem finalizeBridgeERC20_eq_ok
    (h : finalizeBridgeERC20 d side env localToken remoteToken toAddr amount s = .ok s') :
    FromOtherBridge d side env ∧
      PairEffect d side localToken remoteToken 0 amount.toNat s s' := by
  simp only [finalizeBridgeERC20, onlyOtherBridge, bind_eq_ok, require_eq_ok] at h
  obtain ⟨-, hsource, h⟩ := h
  refine ⟨hsource, ?_⟩
  split at h
  next hmintable =>
    simp only [bind_eq_ok, require_eq_ok] at h
    obtain ⟨correct, hpair, u, hcorrect, hmint⟩ := h
    exact .of_token hmintable hpair hcorrect (mint_eq_ok hmint)
  next hmintable =>
    obtain ⟨rest, hrest, hmoved⟩ := bind_eq_ok.mp h
    obtain ⟨hdeposits, hbalance, hsupply⟩ := transfer_eq_ok hmoved
    have hsub := sub_eq_ok.mp hrest
    exact .of_deposits hmintable hbalance hsupply hdeposits (by omega)

end Functions

def Call.isTokenWithdrawal : Call → Bool
  | withdraw l2Token _ _ _ | withdrawTo l2Token _ _ _ _ => l2Token ≠ LEGACY_ERC20_ETH
  | _ => false

section Calls

variable {s s' : Chain}

theorem silent_eq_ok {result : Result Chain} (h : silent result = .ok (s', sent)) :
    result = .ok s' ∧ sent = [] := by
  simp only [silent, bind_eq_ok, pure_eq_ok, Prod.mk.injEq] at h
  obtain ⟨s, hs, rfl, rfl⟩ := h
  exact ⟨hs, rfl⟩

theorem nonPayable_eq_ok {u : Unit} (h : nonPayable env = .ok u) : env.value = 0 := by
  unfold nonPayable at h
  split at h
  next hvalue => exact hvalue
  next => cases h

/-- An accepted call that is not a message from the other bridge: `kept` is the ETH that it leaves,
beyond the `balance` before its value. -/
structure Outcome (d : Deployment) (side : Side) (balance kept : ℕ) (s s' : Chain)
    (sent : List Sent) : Prop where
  balance : s'.balance = balance + kept
  effect : Effect d side (fun _ _ => 0) s s' sent

variable {balance : ℕ}

variable (hcredit : s.balance = balance + env.value.toNat)
include hcredit

variable {extraData : Abi.Bytes}

theorem Outcome.ofETH
    (h : initiateBridgeETH env fromAddr toAddr amount minGasLimit extraData s = .ok (s', sent)) :
    Outcome d side balance 0 s s' sent := by
  obtain ⟨hbalance, heffect⟩ := initiateBridgeETH_eq_ok d side h
  exact ⟨by omega, heffect⟩

theorem Outcome.ofERC20 (h : initiateBridgeERC20 d side env localToken remoteToken fromAddr toAddr
      amount minGasLimit extraData s = .ok (s', sent)) :
    Outcome d side balance env.value.toNat s s' sent := by
  obtain ⟨hbalance, heffect⟩ := initiateBridgeERC20_eq_ok h
  exact ⟨by omega, heffect⟩

theorem Outcome.ofNonPayable {u : Unit} (hvalue : nonPayable env = .ok u) (h : initiateBridgeERC20 d
      side env localToken remoteToken fromAddr toAddr amount minGasLimit extraData s = .ok (s',
      sent)) : Outcome d side balance 0 s s' sent := by
  have houtcome := Outcome.ofERC20 hcredit h
  rwa [nonPayable_eq_ok hvalue] at houtcome

theorem Outcome.ofWithdrawal {l2Token : Address} (h : initiateWithdrawal d side env l2Token fromAddr
      toAddr amount minGasLimit extraData s = .ok (s', sent)) :
    Outcome d side balance (if l2Token ≠ LEGACY_ERC20_ETH then env.value.toNat else 0) s s'
      sent := by
  obtain ⟨remoteToken, -, h⟩ := bind_eq_ok.mp h
  split at h
  next heq =>
    rw [if_neg (not_not_intro heq)]
    exact .ofETH hcredit h
  next hne =>
    rw [if_pos hne]
    exact .ofERC20 hcredit h

def kept (env : Env) (call : Call) : ℕ := if call.isTokenWithdrawal then env.value.toNat else 0

theorem run_eq_ok (houtside : ¬ FromOtherBridge d side env) {call : Call}
    (h : run d side env call s = .ok (s', sent)) :
    Outcome d side balance (kept env call) s s' sent := by
  cases call with
  | receive =>
    obtain ⟨-, -, h⟩ := bind_eq_ok.mp h
    exact .ofETH hcredit h
  | bridgeETH =>
    obtain ⟨-, -, h⟩ := bind_eq_ok.mp h
    exact .ofETH hcredit h
  | bridgeETHTo => exact .ofETH hcredit h
  | bridgeERC20 =>
    obtain ⟨u, hvalue, h⟩ := bind_eq_ok.mp h
    obtain ⟨-, -, h⟩ := bind_eq_ok.mp h
    exact .ofNonPayable hcredit hvalue h
  | bridgeERC20To =>
    obtain ⟨u, hvalue, h⟩ := bind_eq_ok.mp h
    exact .ofNonPayable hcredit hvalue h
  | finalize call =>
    cases call with
    | finalizeBridgeETH =>
      exact absurd (finalizeBridgeETH_eq_ok (silent_eq_ok h).1).1 houtside
    | finalizeBridgeERC20 =>
      obtain ⟨u, -, h⟩ := bind_eq_ok.mp h
      exact absurd (finalizeBridgeERC20_eq_ok (silent_eq_ok h).1).1 houtside
  | depositETH =>
    obtain ⟨-, -, h⟩ := bind_eq_ok.mp h
    exact .ofETH hcredit h
  | depositETHTo => exact .ofETH hcredit h
  | depositERC20 =>
    obtain ⟨u, hvalue, h⟩ := bind_eq_ok.mp h
    obtain ⟨-, -, h⟩ := bind_eq_ok.mp h
    exact .ofNonPayable hcredit hvalue h
  | depositERC20To =>
    obtain ⟨u, hvalue, h⟩ := bind_eq_ok.mp h
    exact .ofNonPayable hcredit hvalue h
  | finalizeETHWithdrawal =>
    obtain ⟨u, hsource, -⟩ := bind_eq_ok.mp h
    exact absurd (require_eq_ok.mp hsource) houtside
  | finalizeERC20Withdrawal =>
    obtain ⟨u, -, h⟩ := bind_eq_ok.mp h
    obtain ⟨u, hsource, -⟩ := bind_eq_ok.mp h
    exact absurd (require_eq_ok.mp hsource) houtside
  | withdraw =>
    obtain ⟨-, -, h⟩ := bind_eq_ok.mp h
    have houtcome := Outcome.ofWithdrawal hcredit h
    simpa only [kept, Call.isTokenWithdrawal, decide_eq_true_eq] using houtcome
  | withdrawTo =>
    have houtcome := Outcome.ofWithdrawal hcredit h
    simpa only [kept, Call.isTokenWithdrawal, decide_eq_true_eq] using houtcome
  | finalizeDeposit =>
    unfold run at h
    dsimp only at h
    split at h
    next => exact absurd (finalizeBridgeETH_eq_ok (silent_eq_ok h).1).1 houtside
    next => exact absurd (finalizeBridgeERC20_eq_ok (silent_eq_ok h).1).1 houtside

omit hcredit in
theorem exec_eq_ok {call : Call} (houtside : ¬ FromOtherBridge d side env)
    (h : exec d side env call s = .ok (s', sent)) :
    s'.balance = s.balance + kept env call ∧ Effect d side (fun _ _ => 0) s s' sent := by
  unfold exec at h
  split at h
  next => cases h
  next =>
    have houtcome := run_eq_ok rfl houtside h
    exact ⟨houtcome.balance, houtcome.effect.deposits, houtcome.effect.totalSupply⟩

omit hcredit in
theorem exec_finalize_eq_ok {call : Finalize}
    (h : exec d side env (.finalize call) s = .ok (s', sent)) :
    s'.balance = s.balance ∧ sent = [] ∧
      Effect d side (fun l r => call.amountOf l r) s s' sent := by
  unfold exec at h
  split at h
  next => cases h
  next =>
    cases call with
    | finalizeBridgeETH =>
      obtain ⟨hfinal, rfl⟩ := silent_eq_ok h
      obtain ⟨-, rfl⟩ := finalizeBridgeETH_eq_ok hfinal
      exact ⟨Nat.add_sub_cancel _ _, rfl, fun _ _ _ => rfl, fun _ _ _ => rfl⟩
    | finalizeBridgeERC20 =>
      obtain ⟨u, hvalue, h⟩ := bind_eq_ok.mp h
      obtain ⟨hfinal, rfl⟩ := silent_eq_ok h
      obtain ⟨-, heffect⟩ := finalizeBridgeERC20_eq_ok hfinal
      have hbalance := heffect.balance
      rw [nonPayable_eq_ok hvalue] at hbalance
      refine ⟨hbalance, rfl, ?_, ?_⟩
      · intro l r hl
        simpa [Finalize.amountOf] using heffect.deposits l r hl
      · intro l r hr
        simpa [Finalize.amountOf] using heffect.totalSupply l r hr

end Calls

def Entry.StrandsETH (e : Entry) : Prop :=
  e.call.isTokenWithdrawal = true ∧ e.env.value ≠ 0

def Reachable (d : Deployment) : World → World → Prop :=
  Relation.ReflTransGen fun w w' => (∃ e, Step d e w w') ∨ Moved w w'

def Backed (d : Deployment) (w : World) : Prop :=
  ∀ side l r, HonestPair d side l r → ((w.chain side).deposits l r).toNat =
    ((w.chain side.other).totalSupply r).toNat +
      (amounts l r (w.channel side) + amounts r l (w.channel side.other))

section Runs

variable {w w' : World}

theorem Side.other_ne (side : Side) : side.other ≠ side := by
  cases side with
  | l1 => decide
  | l2 => decide

@[simp] theorem Side.other_other (side : Side) : side.other.other = side := by
  cases side with
  | l1 => rfl
  | l2 => rfl

theorem Side.eq_or_other (side side' : Side) : side' = side ∨ side' = side.other := by
  cases side with
  | l1 =>
    cases side' with
    | l1 => exact .inl rfl
    | l2 => exact .inr rfl
  | l2 =>
    cases side' with
    | l1 => exact .inr rfl
    | l2 => exact .inl rfl

theorem Fresh.backed (h : Fresh w) : Backed d w := by
  intro side l r _
  rw [h.deposits, h.totalSupply, h.channel, h.channel]
  rfl

theorem Backed.after {side : Side} {finalized : Address → Address → ℕ} {s : Chain}
    {sent : List Sent} {w₀ : World} (h : Backed d w₀)
    (hchain : w.chain = w₀.chain) (hother : w.channel side.other = w₀.channel side.other)
    (hchannel : ∀ l r, amounts l r (w₀.channel side) = amounts l r (w.channel side) + finalized l r)
    (heffect : Effect d side finalized (w.chain side) s sent) : Backed d (w.after side s sent) := by
  intro side' l r hpair
  have hne := side.other_ne
  have hbefore := h side' l r hpair
  rw [← hchain] at hbefore
  rcases side.eq_or_other side' with rfl | rfl
  · have hdeposits := heffect.deposits l r hpair.held
    have hin := hchannel l r
    simp only [World.after, update_self, update_of_ne hne, amounts_append, update_of_ne hne.symm]
    rw [← hother] at hbefore
    omega
  · have hsupply := heffect.totalSupply l r (by simpa using hpair.minted)
    have hin := hchannel r l
    simp only [World.after, Side.other_other, update_self, update_of_ne hne,
      update_of_ne hne.symm, amounts_append] at hbefore ⊢
    rw [← hother] at hbefore
    omega

theorem Backed.step {e : Entry} (h : Backed d w) (hstep : Step d e w w') : Backed d w' := by
  cases hstep with
  | call houtside hok =>
    exact h.after rfl rfl (fun _ _ => rfl) (exec_eq_ok houtside hok).2
  | @deliver _ side env m s sent before after hpending hsource hvalue hok =>
    obtain ⟨-, -, heffect⟩ := exec_finalize_eq_ok hok
    refine h.after rfl ?_ ?_ heffect
    · exact update_of_ne side.other_ne _ _
    · intro l r
      simp only [update_self, hpending, amounts_append, amounts_cons]
      omega

theorem Backed.moved (h : Backed d w) (hmoved : Moved w w') : Backed d w' := by
  obtain ⟨side, balanceOf, rfl⟩ := hmoved
  have hsame : ∀ side', ∃ balanceOf', update w.chain side {w.chain side with balanceOf}
      side' = {w.chain side' with balanceOf := balanceOf'} := by
    intro side'
    by_cases heq : side' = side
    · subst heq
      exact ⟨balanceOf, update_self _ _ _⟩
    · exact ⟨_, update_of_ne heq _ _⟩
  intro side' l r hpair
  obtain ⟨_, hthis⟩ := hsame side'
  obtain ⟨_, hother⟩ := hsame side'.other
  simp only [hthis, hother]
  exact h side' l r hpair

theorem Reachable.backed {init : World} (hinit : Backed d init) (h : Reachable d init w) :
    Backed d w := by
  induction h with
  | refl => exact hinit
  | tail _ hstep ih =>
    rcases hstep with ⟨e, hstep⟩ | hmoved
    · exact ih.step hstep
    · exact ih.moved hmoved

theorem Step.balance {e : Entry} (h : Step d e w w') :
    (w'.chain e.side).balance = (w.chain e.side).balance + kept e.env e.call ∧
      (w'.chain e.side.other).balance = (w.chain e.side.other).balance := by
  cases h with
  | @call _ side env call s sent houtside hok =>
    have hbalance := (exec_eq_ok houtside hok).1
    simp only [World.after, update_self, update_of_ne side.other_ne]
    exact ⟨hbalance, trivial⟩
  | @deliver _ side env m s sent before after hpending hsource hvalue hok =>
    have hbalance := (exec_finalize_eq_ok hok).1
    simp only [World.after, update_self, update_of_ne side.other_ne]
    exact ⟨hbalance, trivial⟩

theorem kept_eq_zero_iff (e : Entry) : kept e.env e.call = 0 ↔ ¬ e.StrandsETH := by
  unfold kept Entry.StrandsETH
  constructor
  · rintro hzero ⟨htoken, hvalue⟩
    rw [if_pos htoken] at hzero
    exact hvalue (BitVec.eq_of_toNat_eq hzero)
  · intro hnot
    split
    next htoken =>
      by_contra hne
      refine hnot ⟨htoken, fun hvalue => hne ?_⟩
      rw [hvalue]
      rfl
    next => rfl

/-- In every run the deposits of an honest pair are the supply of its mintable token and what is on
its way, so that every message can be paid; and an entry point leaves the ETH of the bridges as it
was exactly if it is no withdrawal of tokens that carries ETH. -/
theorem bridges_conserve_iff {init : World} (hinit : Fresh init) (h : Reachable d init w) :
    (∀ side l r, HonestPair d side l r →
      ((w.chain side).deposits l r).toNat = ((w.chain side.other).totalSupply r).toNat +
        (amounts l r (w.channel side) + amounts r l (w.channel side.other)) ∧
      ∀ m ∈ w.channel side, m.call.amountOf l r ≤ ((w.chain side).deposits l r).toNat) ∧
    ∀ e w', Step d e w w' →
      ((∀ side, (w'.chain side).balance = (w.chain side).balance) ↔ ¬ e.StrandsETH) := by
  constructor
  · intro side l r hpair
    have hbacked := h.backed hinit.backed side l r hpair
    refine ⟨hbacked, fun m hm => ?_⟩
    have hle : m.call.amountOf l r ≤ amounts l r (w.channel side) :=
      List.le_sum_of_mem (List.mem_map_of_mem hm)
    omega
  · intro e w' hstep
    obtain ⟨hside, hother⟩ := hstep.balance
    rw [← kept_eq_zero_iff]
    constructor
    · intro hall
      have hsame := hall e.side
      omega
    · intro hzero side
      rcases e.side.eq_or_other side with rfl | rfl
      · omega
      · exact hother

end Runs

def twinDeployment : Deployment where
  l1Bridge := 0xb1
  l1Messenger := 0xa1
  kind
    | .l1, token => if token = 0x11 then .exact else .other
    | .l2, token => if token = 0x22 then .mintable L2_STANDARD_BRIDGE 0x11 else .other

theorem honestPair_twin : HonestPair twinDeployment .l1 0x11 0x22 := ⟨rfl, rfl⟩

def emptyWorld : World where
  chain _ := {
    deposits := fun _ _ => 0
    balance := 0
    totalSupply := fun _ => 0
    balanceOf := fun token _ => if token = 0x11 then 100 else 0 }
  channel _ := []

theorem fresh_emptyWorld : Fresh emptyWorld :=
  ⟨fun _ => rfl, fun _ => rfl, fun _ => rfl⟩

def accountEnv (value : Uint256) : Env where
  sender := 0x55
  value
  xDomainMessageSender := 0
  isContract := false
  approved := true
  accepts := true
  answers := ⟨false, .error .bare, .error .bare⟩

def relayEnv : Env :=
  {accountEnv 0 with
    sender := L2_CROSS_DOMAIN_MESSENGER
    xDomainMessageSender := 0xb1}

def chainAfter (side : Side) (env : Env) (call : Call) (s : Chain) : Chain :=
  match exec twinDeployment side env call s with
  | .ok (s', _) => s'
  | .error _ => s

def deposit5 : Call := .bridgeERC20 0x11 0x22 5 0 []

def sent5 : Sent := ⟨.finalizeBridgeERC20 0x22 0x11 0x55 0x55 5 [], 0, 0⟩

def depositedWorld : World :=
  emptyWorld.after .l1 (chainAfter .l1 (accountEnv 0) deposit5 (emptyWorld.chain .l1)) [sent5]

def deliveredWorld : World :=
  {depositedWorld with channel := Function.update depositedWorld.channel .l2 []}.after .l2
    (chainAfter .l2 relayEnv (.finalize sent5.call) (depositedWorld.chain .l2)) []

theorem reachable_depositedWorld : Reachable twinDeployment emptyWorld depositedWorld :=
  .single (.inl ⟨⟨.l1, accountEnv 0, deposit5⟩, .call (by decide) rfl⟩)

theorem reachable_deliveredWorld : Reachable twinDeployment emptyWorld deliveredWorld := by
  have hpending : depositedWorld.channel .l2 = [] ++ sent5 :: [] := rfl
  have hsource : FromOtherBridge twinDeployment .l2 relayEnv := ⟨rfl, rfl⟩
  exact reachable_depositedWorld.tail
    (.inl ⟨⟨.l2, relayEnv, .finalize sent5.call⟩, .deliver hpending hsource rfl rfl⟩)

def strandingEntry : Entry := ⟨.l2, accountEnv 7, .withdraw 0x22 2 0 []⟩

def strandedWorld : World :=
  deliveredWorld.after .l2
    (chainAfter .l2 (accountEnv 7) (.withdraw 0x22 2 0 []) (deliveredWorld.chain .l2))
    [⟨.finalizeBridgeERC20 0x11 0x22 0x55 0x55 2 [], 0, 0⟩]

theorem step_strandedWorld : Step twinDeployment strandingEntry deliveredWorld strandedWorld :=
  .call (by decide) rfl

theorem bridges_conserve_sample :
    ((deliveredWorld.chain .l2).totalSupply 0x22).toNat = 5 ∧
      ((deliveredWorld.chain .l1).deposits 0x11 0x22).toNat =
        ((deliveredWorld.chain .l2).totalSupply 0x22).toNat +
          (amounts 0x11 0x22 (deliveredWorld.channel .l1) +
            amounts 0x22 0x11 (deliveredWorld.channel .l2)) := by
  refine ⟨by decide +kernel, ?_⟩
  exact ((bridges_conserve_iff fresh_emptyWorld reachable_deliveredWorld).1 .l1 0x11 0x22
    honestPair_twin).1

theorem withdrawal_strands_eth :
    Reachable twinDeployment emptyWorld deliveredWorld ∧
      Step twinDeployment strandingEntry deliveredWorld strandedWorld ∧
      (deliveredWorld.chain .l2).balance = 0 ∧ (strandedWorld.chain .l2).balance = 7 :=
  ⟨reachable_deliveredWorld, step_strandedWorld, by decide +kernel, by decide +kernel⟩

end Bedrock.StandardBridge
