import TokamakTitan.Fees.RollupFee
import TokamakTitan.L2Geth.FeeConservation

/-! The fee check of the sequencer. A transaction is admitted if its sender can pay at the cached
parameters of the gas price oracle, and charged at those in its storage. The cache is read again
after transactions of the oracle's owner. -/
namespace L2Geth.Fees
open Checked (Address bind_eq_ok pure_eq_ok)
open GasPriceOracle (Storage perform owner_of_perform)

structure Transaction where
  data : TxData
  signer : Option Address
  queueOrigin : QueueOrigin
  l1MessageSender : Option Address
  deriving DecidableEq

def Transaction.sender (tx : Transaction) : Option Address :=
  if tx.queueOrigin = .l1ToL2 ∧ tx.l1MessageSender.isSome then tx.l1MessageSender else tx.signer

def Transaction.asMessage (tx : Transaction) : Option Message :=
  tx.sender.map fun sender => {
    sender
    recipient := tx.data.recipient
    gasPrice := tx.data.price
    gas := tx.data.gasLimit
    value := tx.data.amount
    nonce := tx.data.accountNonce
    checkNonce := true
    data := tx.data.payload
    queueOrigin := tx.queueOrigin }

structure Config (H : Type) where
  conv : Conversion
  enforceFees : Bool
  feeThresholdUp : Option ℚ
  feeThresholdDown : Option ℚ
  keccak : List UInt8 → H
  coinbase : Address
  isHomestead : Bool
  isIstanbul : Bool

structure Tip (H : Type) where
  db : StateDB H
  oracle : Storage

structure Service (H : Type) where
  tip : Tip H
  rollupGpo : RollupOracle
  gasPriceOracleOwnerAddress : Address

inductive VerifyError where
  | invalidTransaction (reason : Error)
  | state (reason : String)
  | invalidSender
  | insufficientFunds
  | zeroGasPriceTx
  | gasPriceTooLow (gasPrice l2GasPrice : ℕ)
  | gasPriceTooHigh (gasPrice l2GasPrice : ℕ)
  | other (reason : Error)
  deriving DecidableEq

variable {H : Type}

section Service

variable [DecidableEq H] (cfg : Config H)

abbrev Evm (H : Type) := Message → BitVec 64 → StateDB H → Execution H

/-- The chain on which a message is executed, with the storage of the oracle before it. A message is
never signed, so that its fee is always computed. -/
def Config.chain (oracle : Storage) (evm : Evm H) : Chain H where
  keccak := cfg.keccak
  coinbase := cfg.coinbase
  isHomestead := cfg.isHomestead
  isIstanbul := cfg.isIstanbul
  calculateL1MsgFee msg _ := (calculateL1MsgFee cfg.conv msg oracle).toOption.getD 0
  create := evm
  call := evm

variable (s : Service H)

def Service.cached : Service H where
  tip := s.tip
  rollupGpo := {
    l1GasPrice := (s.tip.oracle.getState l1GasPriceSlot).toNat
    l2GasPrice := (s.tip.oracle.getState l2GasPriceSlot).toNat
    overhead := (s.tip.oracle.getState overheadSlot).toNat
    scalar := scaleDecimals (s.tip.oracle.getState scalarSlot).toNat
      (s.tip.oracle.getState decimalsSlot).toNat }
  gasPriceOracleOwnerAddress := (s.tip.oracle.getState l2GasPriceOracleOwnerSlot).setWidth 160

def Service.updateGasPriceOracleCache (opened : Except String Unit) (s : Service H) :
    Except String (Service H) := do
  opened
  return s.cached

def Service.balance (a : Address) : ℕ :=
  getBalance (cfg.chain s.tip.oracle fun _ gas db => ⟨[], gas, none, db⟩) s.tip.db a

def reportPrice (gasPrice l2GasPrice : ℕ) : Error → VerifyError
  | .gasPriceTooLow => .gasPriceTooLow gasPrice l2GasPrice
  | .gasPriceTooHigh => .gasPriceTooHigh gasPrice l2GasPrice
  | e => .other e

def Service.verifyFee (opened : Except String Unit) (tx : Transaction) :
    Except VerifyError Unit := do
  let fee ← (calculateTotalFee cfg.conv tx.data s.rollupGpo).mapError .invalidTransaction
  let cost := if tx.data.price ≠ 0 then tx.data.amount + fee else tx.data.amount
  opened.mapError .state
  match tx.signer with
  | none => .error .invalidSender
  | some sender =>
    if s.balance cfg sender < cost then .error .insufficientFunds
    else if tx.data.price = 0 then
      if sender = s.gasPriceOracleOwnerAddress then .ok ()
      else if cfg.enforceFees then .error .zeroGasPriceTx
      else .ok ()
    else (paysEnough cfg.conv tx.data.price s.rollupGpo.l2GasPrice cfg.feeThresholdUp
      cfg.feeThresholdDown).mapError (reportPrice tx.data.price s.rollupGpo.l2GasPrice)

def Service.Admits (tx : Transaction) : Prop :=
  tx.queueOrigin = .sequencer ∧ ∃ opened, s.verifyFee cfg opened tx = .ok ()

/-- The calls to the oracle, with their callers, in order. A call that reverts changes nothing. -/
abbrev OracleCalls := List (Address × GasPriceOracle.Call)

def performOne (oracle : Storage) (c : Address × GasPriceOracle.Call) : Storage :=
  match perform c.1 c.2 oracle with
  | .ok after => after
  | .error _ => oracle

def performAll (calls : OracleCalls) (oracle : Storage) : Storage := calls.foldl performOne oracle

/-- The service is started on its state, or a transaction is handed to the miner, with what the EVM
does of it and whether the new state can be opened after it. -/
inductive Event (H : Type) where
  | start
  | apply (tx : Transaction) (gp : BitVec 64) (evm : Evm H) (calls : OracleCalls)
      (opened : Except String Unit)

def Service.included (out : Transitioned H) (calls : OracleCalls) : Service H :=
  {s with tip := ⟨out.state, performAll calls s.tip.oracle⟩}

/-- The end of `applyTransactionToTip`: what the signer recovers is compared with the owner; a
failed recovery gives the zero address. -/
def Service.afterHead (tx : Transaction) (opened : Except String Unit) : Service H :=
  if tx.signer.getD 0 = s.gasPriceOracleOwnerAddress then
    match s.updateGasPriceOracleCache opened with
    | .ok s => s
    | .error _ => s
  else s

def Service.step : Event H → Service H
  | .start => s.cached
  | .apply tx gp evm calls opened =>
    match tx.asMessage with
    | none => s
    | some msg =>
      match transitionDb (cfg.chain s.tip.oracle evm) msg gp s.tip.db with
      | .error _ => s
      | .ok out => (s.included out calls).afterHead tx opened

def Service.run (events : List (Event H)) : Service H :=
  events.foldl (Service.step cfg) s

end Service

variable {cfg : Config H} {s : Service H}

section Coherence

def Service.Coherent (s : Service H) : Prop := s.cached = s

/-- Every call that the owner of the oracle makes is made by the given account. -/
def MadeBy (a : Address) : OracleCalls → Storage → Prop
  | [], _ => True
  | c :: rest, oracle => (c.1 = oracle.owner → c.1 = a) ∧ MadeBy a rest (performOne oracle c)

/-- The oracle changes only by calls of the account that signed the transaction, and if that is the
owner, the new state can be opened. -/
def Service.Notices (s : Service H) : Event H → Prop
  | .start => True
  | .apply tx _ _ calls opened =>
    MadeBy (tx.signer.getD 0) calls s.tip.oracle ∧
      (tx.signer.getD 0 = s.gasPriceOracleOwnerAddress → opened = .ok ())

variable {calls : OracleCalls}

theorem performAll_of_madeBy {a : Address} {oracle : Storage} (h : MadeBy a calls oracle)
    (hne : a ≠ oracle.owner) : performAll calls oracle = oracle := by
  induction calls with
  | nil => rfl
  | cons c rest ih =>
    have hone : performOne oracle c = oracle := by
      unfold performOne
      split
      next after hafter =>
        -- The call came from the owner, hence from the account that is not the owner.
        have howner := owner_of_perform hafter
        exact absurd ((h.1 howner.symm).symm.trans howner.symm) hne
      next => rfl
    have hrest := h.2
    rw [hone] at hrest
    rw [performAll, List.foldl_cons, hone]
    exact ih hrest

variable (h : s.Coherent)
include h

theorem Service.Coherent.owner : s.gasPriceOracleOwnerAddress = s.tip.oracle.owner := by
  rw [← h]
  change (s.tip.oracle.owner.setWidth 256).setWidth 160 = s.tip.oracle.owner
  simp

theorem Service.Coherent.of_oracle_eq {tip : Tip H} (horacle : tip.oracle = s.tip.oracle) :
    ({s with tip} : Service H).Coherent := by
  have hgpo := congrArg Service.rollupGpo h
  have howner := congrArg Service.gasPriceOracleOwnerAddress h
  simp only [Service.cached] at hgpo howner
  simp only [Service.Coherent, Service.cached, horacle, hgpo, howner]

theorem Service.Coherent.afterHead {tx : Transaction} {out : Transitioned H}
    {opened : Except String Unit} (hcalls : MadeBy (tx.signer.getD 0) calls s.tip.oracle)
    (hopened : tx.signer.getD 0 = s.gasPriceOracleOwnerAddress → opened = .ok ()) :
    ((s.included out calls).afterHead tx opened).Coherent := by
  by_cases hsigner : tx.signer.getD 0 = s.gasPriceOracleOwnerAddress
  · have hrefreshed : (s.included out calls).afterHead tx opened =
        (s.included out calls).cached := by
      rw [hopened hsigner]
      exact if_pos hsigner
    rw [hrefreshed]
    rfl
  · have hkept : (s.included out calls).afterHead tx opened = s.included out calls :=
      if_neg hsigner
    rw [hkept]
    apply h.of_oracle_eq
    rw [h.owner] at hsigner
    exact performAll_of_madeBy hcalls hsigner

variable [DecidableEq H]

def Service.NoticesAll (cfg : Config H) : Service H → List (Event H) → Prop
  | _, [] => True
  | s, e :: rest => s.Notices e ∧ NoticesAll cfg (s.step cfg e) rest

theorem Service.Coherent.step {e : Event H} (hnotices : s.Notices e) : (s.step cfg e).Coherent := by
  cases e with
  | start => rfl
  | apply =>
    unfold Service.step
    dsimp only
    split
    next => exact h
    next msg _ =>
      split
      next => exact h
      next out _ => exact h.afterHead hnotices.1 hnotices.2

theorem Service.Coherent.run {events : List (Event H)} (hnotices : s.NoticesAll cfg events) :
    (s.run cfg events).Coherent := by
  induction events generalizing s with
  | nil => exact h
  | cons e rest ih => exact ih (h.step hnotices.1) hnotices.2

end Coherence

section Sufficiency

variable {tx : Transaction} {msg : Message}

theorem rlpEncode_newTransaction (nonce : BitVec 64) (recipient : Option Address) (amount : ℕ)
    (gasLimit : BitVec 64) (gasPrice : ℕ) (data : List UInt8) :
    ∃ raw, rlpEncode (newTransaction nonce recipient amount gasLimit gasPrice data) = .ok raw :=
  ⟨_, rfl⟩

theorem Service.Coherent.calculateTotalFee_eq (h : s.Coherent) (hmsg : tx.asMessage = some msg)
    (cfg : Config H) (evm : Evm H) :
    calculateTotalFee cfg.conv tx.data s.rollupGpo =
      .ok ((cfg.chain s.tip.oracle evm).calculateL1MsgFee msg s.tip.db +
        msg.gas.toNat * msg.gasPrice) := by
  have hgpo := congrArg Service.rollupGpo h
  rw [Transaction.asMessage, Option.map_eq_some_iff] at hmsg
  obtain ⟨sender, _, rfl⟩ := hmsg
  obtain ⟨raw, hraw⟩ := rlpEncode_newTransaction tx.data.accountNonce tx.data.recipient
    tx.data.amount tx.data.gasLimit tx.data.price tx.data.payload
  rw [calculateTotalFee, copyTransaction, hraw, ← hgpo, Nat.mul_comm tx.data.gasLimit.toNat]
  simp only [Config.chain, calculateL1MsgFee, asTransaction, hraw]
  rfl

theorem mgval_eq (chain : Chain H) (msg : Message) (db : StateDB H)
    (horigin : msg.queueOrigin = .sequencer) :
    mgval chain msg db = msg.gas.toNat * msg.gasPrice +
      if msg.gasPrice ≠ 0 then chain.calculateL1MsgFee msg db else 0 := by
  rw [mgval, if_pos horigin, newStateTransition]

theorem Service.Admits.balance (h : s.Admits cfg tx) (hmsg : tx.asMessage = some msg) (fee : ℕ)
    (hfee : calculateTotalFee cfg.conv tx.data s.rollupGpo = .ok fee) (evm : Evm H) :
    msg.value + (if msg.gasPrice ≠ 0 then fee else 0) ≤
      getBalance (cfg.chain s.tip.oracle evm) s.tip.db msg.sender := by
  obtain ⟨horigin, opened, h⟩ := h
  have hsender : tx.sender = tx.signer := if_neg fun hl1 => by simp [horigin] at hl1
  rw [Transaction.asMessage, hsender, Option.map_eq_some_iff] at hmsg
  obtain ⟨sender, hsigner, rfl⟩ := hmsg
  rw [Service.verifyFee, hfee] at h
  simp only [Except.mapError, hsigner, bind_eq_ok, Except.ok.injEq, exists_eq_left'] at h
  obtain ⟨_, _, h⟩ := h
  dsimp only
  by_contra hlt
  rw [if_pos] at h
  · cases h
  · rw [Nat.not_le] at hlt
    apply lt_of_lt_of_eq hlt
    split
    next => rfl
    next => rw [Nat.add_zero]

variable [DecidableEq H]

variable (chain : Chain H)

theorem buyGas_of_lt (msg : Message) (gp : BitVec 64) (db : StateDB H)
    (hlt : getBalance chain db msg.sender < mgval chain msg db) :
    buyGas chain msg (newStateTransition chain msg gp db) = .error .insufficientBalanceForGas := by
  unfold buyGas
  dsimp only
  rw [mgval_newStateTransition]
  exact if_pos hlt

theorem buyGas_newStateTransition (msg : Message) (gp : BitVec 64) (db : StateDB H)
    (hle : mgval chain msg db ≤ getBalance chain db msg.sender) :
    buyGas chain msg (newStateTransition chain msg gp db) =
      if gp < msg.gas then .error .gasLimitReached
      else .ok {
        gp := gp - msg.gas
        gas := 0 + msg.gas
        initialGas := msg.gas
        state := subBalance chain msg.sender (mgval chain msg db) db
        l1Fee := (newStateTransition chain msg gp db).l1Fee } := by
  unfold buyGas
  dsimp only
  rw [mgval_newStateTransition]
  exact if_neg (Nat.not_lt.mpr hle)

theorem getBalance_subBalance_self (a : Address) (amount : ℕ) (db : StateDB H)
    (hle : amount ≤ getBalance chain db a) :
    getBalance chain (subBalance chain a amount db) a = getBalance chain db a - amount := by
  have hlt : getBalance chain db a < 2 ^ 256 := BitVec.isLt _
  have hentry : (subBalance chain a amount db).ovmEth (getOVMBalanceKey chain a) =
      bigToHash (getBalance chain db a - amount) := by
    exact Function.update_self ..
  rw [getBalance, hentry, bigToHash, BitVec.toNat_ofNat, ← Nat.cast_sub hle, Int.natAbs_natCast,
    Nat.mod_eq_of_lt (by omega)]

/-- The sender can pay what is charged. -/
structure Covered (cfg : Config H) (s : Service H) (evm : Evm H) (tx : Transaction)
    (msg : Message) : Prop where
  charged_le : ∀ fee, calculateTotalFee cfg.conv tx.data s.rollupGpo = .ok fee →
    msg.gasPrice ≠ 0 → mgval (cfg.chain s.tip.oracle evm) msg s.tip.db ≤ fee
  affordable : ∀ gp, buyGas (cfg.chain s.tip.oracle evm) msg
    (newStateTransition (cfg.chain s.tip.oracle evm) msg gp s.tip.db) ≠
      .error .insufficientBalanceForGas
  transfers : ∀ gp, msg.gas.toNat ≤ gp.toNat → ∃ p, buyGas (cfg.chain s.tip.oracle evm) msg
    (newStateTransition (cfg.chain s.tip.oracle evm) msg gp s.tip.db) = .ok p ∧
      msg.value ≤ getBalance (cfg.chain s.tip.oracle evm) p.state msg.sender

/-- In every run in which the service notices what happens to the oracle, the fee check of every
transaction suffices for its execution on the state of the tip. -/
theorem fee_check_sufficient (cfg : Config H) (s : Service H) (events : List (Event H))
    (hnotices : s.cached.NoticesAll cfg events) (tx : Transaction) (msg : Message)
    (hmsg : tx.asMessage = some msg) (hadmits : (s.cached.run cfg events).Admits cfg tx)
    (evm : Evm H) : Covered cfg (s.cached.run cfg events) evm tx msg := by
  have hcoherent : (s.cached.run cfg events).Coherent :=
    Service.Coherent.run (s := s.cached) rfl hnotices
  generalize s.cached.run cfg events = t at hadmits hcoherent
  have hfee := hcoherent.calculateTotalFee_eq hmsg cfg evm
  have hbalance := hadmits.balance hmsg _ hfee evm
  have horigin : msg.queueOrigin = .sequencer := by
    rw [Transaction.asMessage, Option.map_eq_some_iff] at hmsg
    obtain ⟨sender, _, rfl⟩ := hmsg
    exact hadmits.1
  have hmgval := mgval_eq (cfg.chain t.tip.oracle evm) msg t.tip.db horigin
  have hcost : msg.value + mgval (cfg.chain t.tip.oracle evm) msg t.tip.db ≤
      getBalance (cfg.chain t.tip.oracle evm) t.tip.db msg.sender := by
    apply le_trans _ hbalance
    rw [hmgval]
    by_cases hprice : msg.gasPrice = 0
    · simp [hprice]
    · rw [if_pos hprice, if_pos hprice]
      omega
  have hbuys := fun gp => buyGas_newStateTransition (cfg.chain t.tip.oracle evm) msg gp t.tip.db
    (by omega)
  constructor
  case charged_le =>
    intro fee hfee' hprice
    obtain rfl := Except.ok.inj (hfee.symm.trans hfee')
    rw [hmgval, if_pos hprice]
    omega
  case affordable =>
    intro gp
    rw [hbuys gp]
    split
    next => simp
    next => simp
  case transfers =>
    intro gp hgp
    refine ⟨_, (hbuys gp).trans (if_neg (Nat.not_lt.mpr hgp)), ?_⟩
    rw [getBalance_subBalance_self _ _ _ _ (by omega)]
    omega

end Sufficiency

def feeConfig : Config (List UInt8) where
  conv := Conversion.saturating 0
  enforceFees := true
  feeThresholdUp := none
  feeThresholdDown := none
  keccak := id
  coinbase := 0xcb
  isHomestead := true
  isIstanbul := true

def balanceKey (a : Checked.Uint256) : List UInt8 := Abi.word a ++ Abi.word 0

def feeDb : StateDB (List UInt8) where
  ovmEth key :=
    if key = balanceKey 0x51 ∨ key = balanceKey 0x52 then 30000
    else if key = balanceKey 0x53 then 60000
    else 0
  nonces _ := 0
  refund := 0

def feeService (owner : Address) : Service (List UInt8) :=
  Service.cached {
    tip := ⟨feeDb, ⟨owner, 1, 0, 0, 1, 0⟩⟩
    rollupGpo := ⟨0, 0, 0, 0⟩
    gasPriceOracleOwnerAddress := 0 }

def feeTx (signer : Address) : Transaction where
  data := {newTransaction 0 (some 0x66) 0 30000 1 [] with v := 1, r := 1, s := 1}
  signer := some signer
  queueOrigin := .sequencer
  l1MessageSender := none

def idleEvm : Evm (List UInt8) := fun _ gas db => ⟨[], gas, none, db⟩

def raiseBaseFee (tx : Transaction) (owner : Address) : Event (List UInt8) :=
  .apply tx 100000 idleEvm [(owner, .setL1BaseFee 1)] (.ok ())

def enqueuedTransaction (owner : Address) : Transaction where
  data := newTransaction 0 (some 0x66) 0 30000 0 []
  signer := none
  queueOrigin := .l1ToL2
  l1MessageSender := some owner

def feeMsg (sender : Address) : Message where
  sender
  recipient := some 0x66
  gasPrice := 1
  gas := 30000
  value := 0
  nonce := 0
  checkNonce := true
  data := []
  queueOrigin := .sequencer

theorem fee_check_sample :
    ((feeService 0x51).run feeConfig [raiseBaseFee (feeTx 0x51) 0x51]).Admits
      feeConfig (feeTx 0x53) ∧
    Covered feeConfig ((feeService 0x51).run feeConfig [raiseBaseFee (feeTx 0x51) 0x51])
      idleEvm (feeTx 0x53) (feeMsg 0x53) := by
  have hadmits : ((feeService 0x51).run feeConfig
      [raiseBaseFee (feeTx 0x51) 0x51]).Admits feeConfig (feeTx 0x53) :=
    ⟨rfl, .ok (), by decide +kernel⟩
  have hnotices : (feeService 0x51).NoticesAll feeConfig [raiseBaseFee (feeTx 0x51) 0x51] :=
    ⟨⟨⟨fun _ => rfl, trivial⟩, fun _ => rfl⟩, trivial⟩
  exact ⟨hadmits, fee_check_sufficient feeConfig _ _ hnotices _ _ rfl hadmits idleEvm⟩

/-- The base fee is raised by a contract that owns the oracle, in a user's transaction, or by an
owner who has enqueued the transaction on L1. In both cases a user is admitted who cannot buy the
gas. -/
theorem stale_cache_admits :
    (((feeService 0xc0).run feeConfig [raiseBaseFee (feeTx 0x51) 0xc0]).Admits
        feeConfig (feeTx 0x52) ∧
      ¬ Covered feeConfig ((feeService 0xc0).run feeConfig [raiseBaseFee (feeTx 0x51) 0xc0])
        idleEvm (feeTx 0x52) (feeMsg 0x52)) ∧
    (((feeService 0xf1).run feeConfig [raiseBaseFee (enqueuedTransaction 0xf1) 0xf1]).Admits
        feeConfig (feeTx 0x52) ∧
      ¬ Covered feeConfig
        ((feeService 0xf1).run feeConfig [raiseBaseFee (enqueuedTransaction 0xf1) 0xf1])
        idleEvm (feeTx 0x52) (feeMsg 0x52)) := by
  refine ⟨⟨⟨rfl, .ok (), by decide +kernel⟩, ?_⟩, ⟨rfl, .ok (), by decide +kernel⟩, ?_⟩
  · intro h
    exact h.affordable 100000 (buyGas_of_lt _ _ _ _ (by decide +kernel))
  · intro h
    exact h.affordable 100000 (buyGas_of_lt _ _ _ _ (by decide +kernel))

end L2Geth.Fees
