import TokamakTitan.L2Geth.SyncService

/-! What a transaction that could not be applied to the tip leaves behind in the sync service. -/
namespace L2Geth.Rollup
open Traced (Program get modify fail Leads Continues)

def stamped (env : Env) (s : SyncService) (tx : Transaction) : Transaction :=
  assignIndex s.headIndex
    {assignTimestamp env (env.now s.exchanges.length) s.timestamp tx with
      l1BlockNumber := some (tx.l1BlockNumber.getD s.blockNumber)}

def advanced (env : Env) (s : SyncService) (tx : Transaction) : SyncService :=
  {s with
    timestamp := max s.timestamp (stamped env s tx).l1Timestamp
    blockNumber := max s.blockNumber (tx.l1BlockNumber.getD s.blockNumber)
    headIndex := (stamped env s tx).index
    headQueueIndex := tx.queueIndex.or s.headQueueIndex}

variable (tx : Transaction)

def LacksTimestamp : Prop := tx.queueOrigin = .l1ToL2 ∧ tx.l1Timestamp = 0

variable {env : Env} {s : SyncService} {tx : Transaction} (latest : Option ℕ)

@[simp] theorem assignIndex_queueIndex : (assignIndex latest tx).queueIndex = tx.queueIndex := by
  unfold assignIndex
  split <;> rfl

@[simp] theorem assignIndex_l1Timestamp : (assignIndex latest tx).l1Timestamp = tx.l1Timestamp := by
  unfold assignIndex
  split <;> rfl

@[simp] theorem assignTimestamp_queueIndex (now ts : ℕ) (tx : Transaction) :
    (assignTimestamp env now ts tx).queueIndex = tx.queueIndex := by
  unfold assignTimestamp
  split <;> rfl

@[simp] theorem assignTimestamp_index (now ts : ℕ) (tx : Transaction) :
    (assignTimestamp env now ts tx).index = tx.index := by
  unfold assignTimestamp
  split <;> rfl

@[simp] theorem assignTimestamp_l1BlockNumber (now ts : ℕ) (tx : Transaction) :
    (assignTimestamp env now ts tx).l1BlockNumber = tx.l1BlockNumber := by
  unfold assignTimestamp
  split <;> rfl

theorem assignIndex_index : (assignIndex latest tx).index = some (tx.index.getD (next latest)) := by
  unfold assignIndex
  cases h : tx.index <;> simp [h]

@[simp] theorem stamped_queueIndex : (stamped env s tx).queueIndex = tx.queueIndex := by
  simp [stamped]

theorem stamped_index (env : Env) (s : SyncService) (tx : Transaction) :
    (stamped env s tx).index = some (tx.index.getD (next s.headIndex)) := by
  simp [stamped, assignIndex_index]

@[simp] theorem stamped_sender : (stamped env s tx).sender = tx.sender := by
  have hindex : ∀ latest (tx : Transaction), (assignIndex latest tx).sender = tx.sender := by
    intro latest tx
    unfold assignIndex
    split <;> rfl
  have htime : ∀ now ts, (assignTimestamp env now ts tx).sender = tx.sender := by
    intro now ts
    unfold assignTimestamp
    split <;> rfl
  simp [stamped, hindex, htime]

theorem assignBlockNumber_leads (bn : ℕ) (tx : Transaction) (s : SyncService) :
    Leads (assignBlockNumber bn tx) s {tx with l1BlockNumber := some (tx.l1BlockNumber.getD bn)}
      {s with blockNumber :=
        if bn < tx.l1BlockNumber.getD bn then tx.l1BlockNumber.getD bn else s.blockNumber} := by
  unfold assignBlockNumber
  cases hn : tx.l1BlockNumber with
  | none => exact ⟨[], by simp⟩
  | some number =>
    have htx : {tx with l1BlockNumber := some number} = tx := by rw [← hn]
    by_cases hlt : bn < number
    · exact ⟨[{s with blockNumber := number}], by
        simp [advanceBlockNumber, hlt, htx, setLatestL1BlockNumber]⟩
    · exact ⟨[], by simp [advanceBlockNumber, hlt, htx]⟩

theorem storeTimestamp_leads (ts : ℕ) (tx : Transaction) (s : SyncService) :
    Leads (storeTimestamp ts tx) s ()
      {s with timestamp := if ts < tx.l1Timestamp then tx.l1Timestamp else s.timestamp} := by
  unfold storeTimestamp
  by_cases hlt : ts < tx.l1Timestamp
  · exact ⟨[{s with timestamp := tx.l1Timestamp}], by simp [hlt, setLatestL1Timestamp]⟩
  · exact ⟨[], by simp [hlt]⟩

theorem setLatestIndex_leads (index : Option ℕ) (s : SyncService) :
    Leads (setLatestIndex index) s () {s with headIndex := index.or s.headIndex} := by
  cases index with
  | none => exact ⟨[], rfl⟩
  | some i => exact ⟨[{s with headIndex := some i}], rfl⟩

theorem setLatestEnqueueIndex_leads (index : Option ℕ) (s : SyncService) :
    Leads (setLatestEnqueueIndex index) s ()
      {s with headQueueIndex := index.or s.headQueueIndex} := by
  cases index with
  | none => exact ⟨[], rfl⟩
  | some q => exact ⟨[{s with headQueueIndex := some q}], rfl⟩

theorem applyTransactionToTip_continues (env : Env) (s : SyncService) (h : ¬LacksTimestamp tx) :
    Continues (applyTransactionToTip env tx) s (includeTransaction env (stamped env s tx) >>=
        finishInclusion s.timestamp s.blockNumber s.headIndex (stamped env s tx))
      (advanced env s tx) := by
  have hpure : checkTimestamp tx = pure () := if_neg h
  have hcheck : Leads (checkTimestamp tx) s () s := ⟨[], by rw [hpure, Traced.run_pure]⟩
  refine .step hcheck (.step ⟨[], rfl⟩ (.step (assignBlockNumber_leads _ _ _)
    (.step (storeTimestamp_leads _ _ _) (.step (setLatestIndex_leads _ _)
      (.step (setLatestEnqueueIndex_leads _ _) ?_)))))
  simp only [assignTimestamp_l1BlockNumber]
  refine .of_eq ?_
  simp [advanced, stamped, assignIndex_index, max_def_lt]

/-- The timestamp and the block number come back after an error, and the latest index if there was
one. The queue index stays. -/
def undone (env : Env) (s : SyncService) (tx : Transaction) : SyncService :=
  {s with
    headIndex := s.headIndex.or (stamped env s tx).index
    headQueueIndex := tx.queueIndex.or s.headQueueIndex
    exchanges := .inclusion (stamped env s tx).index :: s.exchanges}

theorem undoIndexes_leads (ts bn : ℕ) (index : Option ℕ) (t : SyncService) :
    Leads (undoIndexes ts bn index) t ()
      {t with timestamp := ts, blockNumber := bn, headIndex := index.or t.headIndex} := by
  obtain ⟨trace, h⟩ := setLatestIndex_leads index {t with timestamp := ts, blockNumber := bn}
  exact ⟨[{t with timestamp := ts}, {t with timestamp := ts, blockNumber := bn}] ++ trace, by
    simp [undoIndexes, setLatestL1Timestamp, setLatestL1BlockNumber, h]⟩

theorem undoIndexes_advanced (env : Env) (s : SyncService) (tx : Transaction)
    (chain : List Transaction) :
    Leads (undoIndexes s.timestamp s.blockNumber s.headIndex)
      {advanced env s tx with
        chain
        exchanges := .inclusion (stamped env s tx).index :: s.exchanges} ()
      {undone env s tx with chain} :=
  undoIndexes_leads _ _ _ _

variable {reason : String} {t : SyncService}

theorem includeTransaction_failed (hm : env.miner t.exchanges.length tx = .failed reason) :
    Leads (includeTransaction env tx) t (.failed reason)
      {t with exchanges := .inclusion tx.index :: t.exchanges} :=
  ⟨[{t with exchanges := .inclusion tx.index :: t.exchanges}], by simp [includeTransaction, hm]⟩

variable {oracle : Except String Checked.Address}

theorem includeTransaction_included (hm : env.miner t.exchanges.length tx = .included oracle) :
    Leads (includeTransaction env tx) t (.included oracle)
      {t with
        chain := t.chain ++ [tx]
        exchanges := .inclusion tx.index :: t.exchanges} :=
  ⟨[{t with
      chain := t.chain ++ [tx]
      exchanges := .inclusion tx.index :: t.exchanges}], by simp [includeTransaction, hm]⟩

/-! ### The outcomes of a transaction that is not refused -/

section Outcomes
variable (h : ¬LacksTimestamp tx)
include h

theorem applyTransactionToTip_of_failed
    (hm : env.miner s.exchanges.length (stamped env s tx) = .failed reason) :
    Continues (applyTransactionToTip env tx) s (fail (.inclusion reason)) (undone env s tx) :=
  (applyTransactionToTip_continues env s h).trans (.step (includeTransaction_failed hm)
      (.step (undoIndexes_advanced env s tx s.chain) (.of_eq rfl)))

theorem applyTransactionToTip_of_oracle_error
    (hm : env.miner s.exchanges.length (stamped env s tx) = .included (.error reason))
    (howner : tx.sender = s.gasPriceOracleOwnerAddress) :
    Continues (applyTransactionToTip env tx) s (fail (.gasPriceOracle reason))
      {undone env s tx with chain := s.chain ++ [stamped env s tx]} := by
  refine (applyTransactionToTip_continues env s h).trans (.step (includeTransaction_included hm) ?_)
  refine .step ⟨[], rfl⟩ ?_
  have hsender : (stamped env s tx).sender = (advanced env s tx).gasPriceOracleOwnerAddress := by
    rw [stamped_sender]
    exact howner
  rw [if_pos hsender]
  exact .step (undoIndexes_advanced env s tx _) (.of_eq rfl)

theorem applyTransactionToTip_of_included
    (hm : env.miner s.exchanges.length (stamped env s tx) = .included oracle)
    (hok : tx.sender = s.gasPriceOracleOwnerAddress → ∃ owner, oracle = .ok owner) :
    ((applyTransactionToTip env tx).run s).result = .ok () := by
  have hc := (applyTransactionToTip_continues env s h).trans
    (.step (includeTransaction_included hm) (.of_eq rfl))
  rw [hc.result_eq]
  by_cases howner : tx.sender = s.gasPriceOracleOwnerAddress
  · obtain ⟨owner, rfl⟩ := hok howner
    simp [finishInclusion, advanced, howner]
  · simp [finishInclusion, advanced, howner]

end Outcomes

structure Unchanged (s t : SyncService) : Prop where
  latestIndex : t.headIndex = s.headIndex
  enqueueIndex : t.headQueueIndex = s.headQueueIndex
  l1Timestamp : t.timestamp = s.timestamp
  l1BlockNumber : t.blockNumber = s.blockNumber
  chainHead : t.chain = s.chain

/-- The transaction is refused before anything is written, or the miner fails it, there was a latest
index to come back to, and the queue index is not new. -/
def FailsCleanly (env : Env) (s : SyncService) (tx : Transaction) : Prop :=
  LacksTimestamp tx ∨
    (∃ reason, env.miner s.exchanges.length (stamped env s tx) = .failed reason) ∧
      s.headIndex ≠ none ∧ (tx.queueIndex = none ∨ tx.queueIndex = s.headQueueIndex)

theorem or_stamped_index_iff (env : Env) (s : SyncService) (tx : Transaction) :
    s.headIndex.or (stamped env s tx).index = s.headIndex ↔ s.headIndex ≠ none := by
  cases h : s.headIndex <;> simp [stamped_index]

theorem or_queueIndex_iff (queueIndex latest : Option ℕ) :
    queueIndex.or latest = latest ↔ queueIndex = none ∨ queueIndex = latest := by
  cases queueIndex <;> simp

theorem unchanged_undone_iff (env : Env) (s : SyncService) (tx : Transaction) :
    Unchanged s (undone env s tx) ↔
      s.headIndex ≠ none ∧ (tx.queueIndex = none ∨ tx.queueIndex = s.headQueueIndex) := by
  rw [← or_stamped_index_iff env s tx, ← or_queueIndex_iff]
  constructor
  · intro hu
    exact ⟨hu.latestIndex, hu.enqueueIndex⟩
  · rintro ⟨hindex, hqueue⟩
    exact ⟨hindex, hqueue, rfl, rfl, rfl⟩

def applyAll (env : Env) (txs : List Transaction) : Action Unit :=
  Traced.forEach (fun tx => do
    let _ ← Traced.attempt (applyTransactionToTip env tx)
    pure ()) txs

theorem failed_unchanged_iff (env : Env) (s : SyncService) (tx : Transaction) (e : Error)
    (h : ((applyTransactionToTip env tx).run s).result = .error e) :
    Unchanged s ((applyTransactionToTip env tx).run s).state ↔ FailsCleanly env s tx := by
  by_cases hl : LacksTimestamp tx
  · -- refused before anything is written
    have hcheck : checkTimestamp tx = fail .missingTimestamp := if_pos hl
    have hstate : ((applyTransactionToTip env tx).run s).state = s := by
      simp [applyTransactionToTip, hcheck]
    rw [hstate]
    exact iff_of_true ⟨rfl, rfl, rfl, rfl, rfl⟩ (.inl hl)
  cases hm : env.miner s.exchanges.length (stamped env s tx) with
  | failed =>
    rw [(applyTransactionToTip_of_failed hl hm).state_eq, Traced.run_fail, unchanged_undone_iff]
    simp [FailsCleanly, hl, hm]
  | included oracle =>
    -- an error after the block is in the chain is that of the oracle's slots
    have hnot : ¬FailsCleanly env s tx := by simp [FailsCleanly, hl, hm]
    by_cases howner : tx.sender = s.gasPriceOracleOwnerAddress
    · cases oracle with
      | ok owner =>
        rw [applyTransactionToTip_of_included hl hm fun _ => ⟨owner, rfl⟩] at h
        cases h
      | error =>
        refine iff_of_false (fun hu => ?_) hnot
        have hchain := hu.chainHead
        have hstate := (applyTransactionToTip_of_oracle_error hl hm howner).state_eq
        rw [hstate, Traced.run_fail] at hchain
        simp at hchain
    · rw [applyTransactionToTip_of_included hl hm fun h' => absurd h' howner] at h
      cases h

def transferTx : Transaction where
  recipient := some 7
  data := []
  gas := 21000
  sender := 1
  l1MessageSender := none
  l1BlockNumber := none
  l1Timestamp := 0
  queueOrigin := .sequencer
  index := none
  queueIndex := none

def enqueuedTx : Transaction :=
  {transferTx with
    l1MessageSender := some 9
    l1BlockNumber := some 12
    l1Timestamp := 1500
    queueOrigin := .l1ToL2
    queueIndex := some 0}

def unavailable : Client where
  latestTransactionIndex _ _ := .error .elementNotFound
  transaction _ _ _ := .error .elementNotFound
  latestTransactionBatchIndex _ := .error .elementNotFound
  transactionBatch _ _ := .error .elementNotFound
  ethContext _ _ := .error .elementNotFound
  rawTransactionBatchIndex _ _ _ := .error .elementNotFound
  lastConfirmedEnqueue _ := .error .elementNotFound

def soleSequencer : Env where
  verifier := false
  backend := .l1
  timestampRefreshThreshold := 180 * 10 ^ 9
  now _ := 1000 * 10 ^ 9
  miner t _ := if t = 0 then .included (.ok 0) else .failed "nonce too low"
  client := unavailable

theorem failed_unchanged_sample :
    Unchanged ((applyAll soleSequencer [transferTx]).run .fresh).state
      ((applyTransactionToTip soleSequencer transferTx).run
        ((applyAll soleSequencer [transferTx]).run .fresh).state).state :=
  (failed_unchanged_iff _ _ _ (.inclusion "nonce too low") rfl).mpr
    (.inr ⟨⟨_, rfl⟩, nofun, .inl rfl⟩)

/-- The first queue transaction is failed by the miner, and the service goes on with the second. -/
theorem failed_enqueue_skipped :
    ∃ env txs tx e, ∃ s, s = ((applyAll env txs).run .fresh).state ∧
      ((applyTransactionToTip env tx).run s).result = .error e ∧
      ¬Unchanged s ((applyTransactionToTip env tx).run s).state ∧
      tx.queueIndex = some (next s.headQueueIndex) ∧
      next ((applyTransactionToTip env tx).run s).state.headQueueIndex =
        next s.headQueueIndex + 1 := by
  refine ⟨soleSequencer, [transferTx], enqueuedTx, .inclusion "nonce too low", _, rfl,
    rfl, ?_, rfl, rfl⟩
  intro hu
  have hqueue := hu.enqueueIndex
  exact absurd hqueue (by decide)

end L2Geth.Rollup
