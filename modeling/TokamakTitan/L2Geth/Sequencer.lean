import TokamakTitan.L2Geth.FailedTransaction

/-! The L1 context of a sequencer's blocks: the timestamps and L1 block numbers that the sync
service assigns while it also polls L1. -/
namespace L2Geth.Rollup
open Traced (Program get modify fail Leads Continues)

variable (latestEthContext : ℕ → Except RpcError EthContext)

def updateL1BlockNumber : Action Unit := do
  let context ← request latestEthContext
  let s ← get
  advanceBlockNumber s.blockNumber context.blockNumber

inductive SequencerStep where
  | poll
  | apply (tx : Transaction)

section Run

variable (env : Env) (latestEthContext : ℕ → Except RpcError EthContext)

def SequencerStep.action : SequencerStep → Action Unit
  | .poll => updateL1BlockNumber latestEthContext
  | .apply tx => applyTransactionToTip env tx

variable (s : SyncService)

/-- A call may fail; the next one starts from the state that it leaves. -/
def sequencerStep (step : SequencerStep) : SyncService :=
  ((step.action env latestEthContext).run s).state

def sequencerRun (steps : List SequencerStep) : SyncService :=
  steps.foldl (sequencerStep env latestEthContext) s

/-- The transaction is from the owner of the gas price oracle, and after it has been included the
oracle's slots cannot be read. -/
def RefreshFails (tx : Transaction) : Prop :=
  ¬LacksTimestamp tx ∧ tx.sender = s.gasPriceOracleOwnerAddress ∧
    ∃ reason, env.miner s.exchanges.length (stamped env s tx) = .included (.error reason)

/-- Each transaction of a run has the property in the state that it is applied to. -/
def AtEach (P : SyncService → Transaction → Prop) : SyncService → List SequencerStep → Prop
  | _, [] => True
  | s, .poll :: steps => AtEach P (sequencerStep env latestEthContext s .poll) steps
  | s, .apply tx :: steps =>
    P s tx ∧ AtEach P (sequencerStep env latestEthContext s (.apply tx)) steps

end Run

def Current (s : SyncService) : Prop :=
  ∀ tx ∈ s.chain.getLast?, tx.l1Timestamp = s.timestamp

def number (tx : Transaction) : ℕ := tx.l1BlockNumber.getD 0

/-- From block `n` on no block is below the one before it. -/
def Ordered (f : Transaction → ℕ) (n : ℕ) (chain : List Transaction) : Prop :=
  ∀ (k : ℕ) a b, n ≤ k + 1 → chain[k]? = some a → chain[k + 1]? = some b → f a ≤ f b

/-- A transaction that comes in over RPC has no timestamp yet; one of the queue has any. -/
def Sequenced (tx : Transaction) : Prop := tx.l1Timestamp = 0 ∨ tx.queueOrigin = .l1ToL2

/-! ### Steps -/

structure SameContext (s t : SyncService) : Prop where
  chain : t.chain = s.chain
  timestamp : t.timestamp = s.timestamp
  blockNumber : s.blockNumber ≤ t.blockNumber

structure Appends (env : Env) (s : SyncService) (tx : Transaction) (t : SyncService) : Prop where
  chain : t.chain = s.chain ++ [stamped env s tx]
  timestamp : t.timestamp = (advanced env s tx).timestamp
  blockNumber : t.blockNumber = (advanced env s tx).blockNumber

section Steps

variable {env : Env} {latestEthContext : ℕ → Except RpcError EthContext} {s : SyncService}
  {tx : Transaction}

theorem poll_sameContext (s : SyncService) :
    SameContext s ((updateL1BlockNumber latestEthContext).run s).state := by
  cases hanswer : latestEthContext s.exchanges.length with
  | error reason =>
    have hstate : ((updateL1BlockNumber latestEthContext).run s).state =
        {s with exchanges := .element (some reason) :: s.exchanges} := by
      simp [updateL1BlockNumber, request, hanswer]
    rw [hstate]
    exact ⟨rfl, rfl, le_rfl⟩
  | ok context =>
    have hstate : ((updateL1BlockNumber latestEthContext).run s).state =
        {s with
          blockNumber := max s.blockNumber context.blockNumber
          exchanges := .element none :: s.exchanges} := by
      by_cases hlt : s.blockNumber < context.blockNumber
      · simp [updateL1BlockNumber, request, hanswer, advanceBlockNumber, setLatestL1BlockNumber,
          hlt, max_eq_right hlt.le]
      · simp [updateL1BlockNumber, request, hanswer, advanceBlockNumber, hlt,
          max_eq_left (not_lt.mp hlt)]
    rw [hstate]
    exact ⟨rfl, rfl, le_max_left _ _⟩

theorem apply_cases (hrefresh : ¬RefreshFails env s tx) :
    SameContext s ((applyTransactionToTip env tx).run s).state ∨
      Appends env s tx ((applyTransactionToTip env tx).run s).state := by
  by_cases hl : LacksTimestamp tx
  · have hcheck : checkTimestamp tx = fail .missingTimestamp := if_pos hl
    have hstate : ((applyTransactionToTip env tx).run s).state = s := by
      simp [applyTransactionToTip, hcheck]
    rw [hstate]
    exact .inl ⟨rfl, rfl, le_rfl⟩
  cases hm : env.miner s.exchanges.length (stamped env s tx) with
  | failed =>
    rw [(applyTransactionToTip_of_failed hl hm).state_eq, Traced.run_fail]
    exact .inl ⟨rfl, rfl, le_rfl⟩
  | included oracle =>
    have hc := (applyTransactionToTip_continues env s hl).trans
      (.step (includeTransaction_included hm) (.of_eq rfl))
    rw [hc.state_eq]
    right
    by_cases howner : tx.sender = s.gasPriceOracleOwnerAddress
    · cases oracle with
      | ok =>
        constructor <;> simp [finishInclusion, advanced, howner]
      | error reason => exact absurd ⟨hl, howner, reason, hm⟩ hrefresh
    · constructor <;> simp [finishInclusion, advanced, howner]

theorem sequencerRun_invariant {P : SyncService → Transaction → Prop} {I : SyncService → Prop}
    {steps : List SequencerStep} (h : I s) (hsteps : AtEach env latestEthContext P s steps)
    (hrefresh : AtEach env latestEthContext (fun t tx => ¬RefreshFails env t tx) s steps)
    (hsame : ∀ t t', I t → SameContext t t' → I t')
    (happends : ∀ t t' tx, I t → P t tx → Appends env t tx t' → I t') :
    I (sequencerRun env latestEthContext s steps) := by
  induction steps generalizing s with
  | nil => exact h
  | cons step steps ih =>
    cases step with
    | poll => exact ih (hsame _ _ h (poll_sameContext _)) hsteps hrefresh
    | apply tx =>
      refine ih ?_ hsteps.2 hrefresh.2
      rcases apply_cases hrefresh.1 with hkept | happ
      · exact hsame _ _ h hkept
      · exact happends _ _ tx h hsteps.1 happ

/-! ### Order -/

theorem ordered_length (f : Transaction → ℕ) (chain : List Transaction) :
    Ordered f chain.length chain := by
  intro k a b hk _ hb
  rw [List.getElem?_eq_none hk] at hb
  cases hb

theorem Ordered.concat {f : Transaction → ℕ} {n : ℕ} {chain : List Transaction}
    (h : Ordered f n chain) (hlast : ∀ a ∈ chain.getLast?, f a ≤ f tx) :
    Ordered f n (chain ++ [tx]) := by
  intro k a b hk ha hb
  have hlength := (List.getElem?_eq_some_iff.mp hb).1
  rw [List.length_append, List.length_singleton] at hlength
  rw [List.getElem?_append_left (by omega)] at ha
  rcases Nat.lt_or_ge (k + 1) chain.length with hlt | hge
  · rw [List.getElem?_append_left hlt] at hb
    exact h k a b hk ha hb
  · have hend : k + 1 = chain.length := by omega
    rw [hend, List.getElem?_concat_length] at hb
    obtain rfl := Option.some.inj hb
    have hk : k = chain.length - 1 := by omega
    rw [hk, ← List.getLast?_eq_getElem?] at ha
    exact hlast a ha

theorem le_stamped_l1Timestamp (hv : env.verifier = false) (h : Sequenced tx) (s : SyncService) :
    s.timestamp ≤ (stamped env s tx).l1Timestamp := by
  have hassign : tx.l1Timestamp = 0 ∨ env.verifier = false ∧ tx.queueOrigin = .l1ToL2 :=
    h.imp_right fun horigin => ⟨hv, horigin⟩
  simp only [stamped, assignIndex_l1Timestamp, assignTimestamp, if_pos hassign]
  split
  · rw [Nat.le_div_iff_mul_le (by norm_num)]
    omega
  · exact le_rfl

theorem number_stamped (env : Env) (s : SyncService) (tx : Transaction) :
    number (stamped env s tx) = tx.l1BlockNumber.getD s.blockNumber := by
  unfold number stamped assignIndex
  split <;> rfl

end Steps

/-- A sequencer's timestamps do not go back, and the one in memory is that of the last block, as
long as the cache of the gas price oracle can be refreshed. -/
theorem sequencer_timestamps (env : Env) (latestEthContext : ℕ → Except RpcError EthContext)
    (hv : env.verifier = false) (s : SyncService) (hs : Current s) (steps : List SequencerStep)
    (hsequenced : AtEach env latestEthContext (fun _ tx => Sequenced tx) s steps)
    (hrefresh : AtEach env latestEthContext (fun t tx => ¬RefreshFails env t tx) s steps) :
    Current (sequencerRun env latestEthContext s steps) ∧
    Ordered Transaction.l1Timestamp s.chain.length
      (sequencerRun env latestEthContext s steps).chain := by
  refine sequencerRun_invariant
    (I := fun t => Current t ∧ Ordered Transaction.l1Timestamp _ t.chain)
    ⟨hs, ordered_length _ _⟩ hsequenced hrefresh ?_ ?_
  · rintro t t' ⟨hcurrent, hordered⟩ hsame
    rw [Current, hsame.chain, hsame.timestamp]
    exact ⟨hcurrent, hordered⟩
  · rintro t t' tx ⟨hcurrent, hordered⟩ hseq happends
    have hle := le_stamped_l1Timestamp hv hseq t
    rw [Current, happends.chain, happends.timestamp]
    constructor
    · intro a ha
      rw [List.getLast?_concat, Option.mem_some_iff] at ha
      rw [← ha]
      exact (max_eq_right hle).symm
    · exact hordered.concat fun a ha => (hcurrent a ha).trans_le hle

/-- The miner includes everything, but the clock goes back. -/
def reliableSequencer : Env where
  verifier := false
  backend := .l1
  timestampRefreshThreshold := 180 * 10 ^ 9
  now t := if t = 0 then 1000 * 10 ^ 9 else 500 * 10 ^ 9
  miner _ _ := .included (.ok 1)
  client := unavailable

def polled (number t : ℕ) : Except RpcError EthContext := .ok ⟨number, t⟩

theorem reliable_refreshes (s : SyncService) (steps : List SequencerStep) :
    AtEach reliableSequencer latestEthContext
      (fun t tx => ¬RefreshFails reliableSequencer t tx) s steps := by
  induction steps generalizing s with
  | nil => trivial
  | cons step steps ih =>
    cases step with
    | poll => exact ih _
    | apply tx => exact ⟨fun ⟨_, _, _, h⟩ => (nomatch h), ih _⟩

theorem sequencer_timestamps_sample :
    Current (sequencerRun reliableSequencer (polled 10) .fresh
      [.apply transferTx, .apply enqueuedTx]) ∧
    Ordered Transaction.l1Timestamp 0 (sequencerRun reliableSequencer (polled 10) .fresh
      [.apply transferTx, .apply enqueuedTx]).chain :=
  sequencer_timestamps reliableSequencer (polled 10) rfl .fresh nofun _
    ⟨.inl rfl, .inr rfl, trivial⟩ (reliable_refreshes _ _ _)

/-- The first transaction is from the owner of the oracle, whose slots cannot be read after it. -/
def unreadableOracle : Env :=
  {reliableSequencer with
    miner := fun t _ => .included (if t = 0 then .error "missing trie node" else .ok 1)}

/-- The timestamp goes back although the block stays, and the next block is before it. -/
theorem timestamp_rolled_back :
    ¬Current (sequencerRun unreadableOracle (polled 10)
      {SyncService.fresh with gasPriceOracleOwnerAddress := 1} [.apply transferTx]) ∧
    ¬Ordered Transaction.l1Timestamp 0 (sequencerRun unreadableOracle (polled 10)
      {SyncService.fresh with gasPriceOracleOwnerAddress := 1}
      [.apply transferTx, .apply transferTx]).chain := by
  constructor
  · intro h
    exact absurd (h _ rfl) (by decide)
  · intro h
    exact absurd (h 0 _ _ (by decide) rfl rfl) (by decide)

/-- A sequencer's L1 block numbers do not go back, as long as in addition no queue transaction is
from a block before the one in memory. -/
theorem sequencer_blockNumbers (env : Env) (latestEthContext : ℕ → Except RpcError EthContext)
    (s : SyncService) (hs : ∀ tx ∈ s.chain.getLast?, number tx ≤ s.blockNumber)
    (steps : List SequencerStep)
    (hahead : AtEach env latestEthContext (fun t tx => ∀ n ∈ tx.l1BlockNumber, t.blockNumber ≤ n)
      s steps)
    (hrefresh : AtEach env latestEthContext (fun t tx => ¬RefreshFails env t tx) s steps) :
    Ordered number s.chain.length (sequencerRun env latestEthContext s steps).chain := by
  refine (sequencerRun_invariant
    (I := fun t => (∀ tx ∈ t.chain.getLast?, number tx ≤ t.blockNumber) ∧ Ordered number _ t.chain)
    ⟨hs, ordered_length _ _⟩ hahead hrefresh ?_ ?_).2
  · rintro t t' ⟨hlast, hordered⟩ hsame
    rw [hsame.chain]
    exact ⟨fun tx htx => (hlast tx htx).trans hsame.blockNumber, hordered⟩
  · rintro t t' tx ⟨hlast, hordered⟩ hn happends
    have hle : t.blockNumber ≤ number (stamped env t tx) := by
      rw [number_stamped]
      cases htx : tx.l1BlockNumber with
      | none => exact le_rfl
      | some n => exact hn n htx
    rw [happends.chain, happends.blockNumber]
    constructor
    · intro a ha
      rw [List.getLast?_concat, Option.mem_some_iff] at ha
      rw [← ha, number_stamped]
      exact le_max_right _ _
    · exact hordered.concat fun a ha => (hlast a ha).trans hle

theorem sequencer_blockNumbers_sample :
    Ordered number 0 (sequencerRun reliableSequencer (polled 10) .fresh
      [.poll, .apply transferTx, .apply enqueuedTx, .apply transferTx]).chain :=
  sequencer_blockNumbers reliableSequencer (polled 10) .fresh nofun _
    ⟨nofun, by rintro n ⟨⟩; decide, nofun, trivial⟩ (reliable_refreshes _ _ _)

/-- The poll is ahead of the queue, whose transaction is applied with its own, lower number. -/
theorem enqueue_behind_poll :
    ¬Ordered number 0 (sequencerRun reliableSequencer (polled 20) .fresh
      [.poll, .apply transferTx, .apply enqueuedTx]).chain := by
  intro h
  exact absurd (h 0 _ _ (by decide) rfl rfl) (by decide)

end L2Geth.Rollup
