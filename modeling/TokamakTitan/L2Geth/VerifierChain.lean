import TokamakTitan.L2Geth.CrashPoints

/-! A verifier that follows a remote: its chain is a prefix of the remote's transactions, whatever
is appended and whichever requests fail. -/
namespace L2Geth.Rollup
open List
open Traced (Program get modify fail attempt forEach forRange Meets)

/-- An append-only list of indexed transactions, in batches. `height` is its length at a number of
exchanges. -/
structure Remote where
  txs : ℕ → Transaction
  indexed : ∀ i, (txs i).index = some i
  batchStart : ℕ → ℕ
  batchStart_zero : batchStart 0 = 0
  batchStart_mono : Monotone batchStart
  height : ℕ → ℕ
  height_mono : Monotone height

def Remote.slice (remote : Remote) (start stop : ℕ) : List Transaction :=
  (List.range' start (stop - start)).map remote.txs

/-- The answers are those of the remote chain at the time. -/
structure Serves (client : Client) (remote : Remote) : Prop where
  transaction : ∀ t i backend tx, client.transaction t i backend = .ok tx →
    i < remote.height t ∧ tx = remote.txs i
  transactionBatch : ∀ t b txs, client.transactionBatch t b = .ok txs →
    remote.batchStart (b + 1) ≤ remote.height t ∧
      txs = remote.slice (remote.batchStart b) (remote.batchStart (b + 1))

/-- The insertion of a block does not fail, nor reading the gas price oracle after it. -/
def Reliable (env : Env) : Prop := ∀ t tx, ∃ owner, env.miner t tx = .included (.ok owner)

/-- The transaction in a block is that of the remote. The L1 context is added where the remote
gives none. -/
def Holds (applied tx : Transaction) : Prop :=
  ∃ ts bn, applied = {tx with
    l1Timestamp := if tx.l1Timestamp = 0 then ts else tx.l1Timestamp
    l1BlockNumber := some (tx.l1BlockNumber.getD bn)}

def Exchange.appliedIndex : Exchange → Option ℕ
  | .inclusion index => index
  | _ => none

/-- The chain is a prefix of the remote, each transaction was sent to the miner once and in order,
and the indexes of verified transactions and of batches are not ahead of the chain. -/
structure Follows (remote : Remote) (r : Record) : Prop where
  height : r.chain.length ≤ remote.height r.exchanges.length
  holds : ∀ i applied, r.chain[i]? = some applied → Holds applied (remote.txs i)
  once : r.exchanges.filterMap Exchange.appliedIndex = (List.range r.chain.length).reverse
  verified : ∀ v, r.headVerifiedIndex = some v → ∃ i, r.headIndex = some i ∧ v ≤ i
  batch : ∀ b, r.headBatchIndex = some b → remote.batchStart (b + 1) ≤ r.chain.length
  matched : r.mismatched = []

def Settled (remote : Remote) (r : Record) : Prop :=
  Follows remote r ∧ next r.headIndex = r.chain.length

variable {tx applied : Transaction}

theorem Holds.isCtcTxEqual (h : Holds applied tx) : isCtcTxEqual tx applied = true := by
  obtain ⟨ts, bn, rfl⟩ := h
  cases hto : tx.recipient <;> simp [Rollup.isCtcTxEqual, hto]

variable {env : Env}

theorem holds_stamped (hv : env.verifier = true) (s : SyncService) (hindex : tx.index ≠ none) :
    Holds (stamped env s tx) tx := by
  obtain ⟨index, hi⟩ := Option.ne_none_iff_exists'.mp hindex
  refine ⟨(stamped env s tx).l1Timestamp, s.blockNumber, ?_⟩
  have hassign : stamped env s tx =
      {assignTimestamp env (env.now s.exchanges.length) s.timestamp tx with
        l1BlockNumber := some (tx.l1BlockNumber.getD s.blockNumber)} := by
    simp only [stamped, assignIndex, assignTimestamp_index, hi]
  rw [hassign]
  by_cases hts : tx.l1Timestamp = 0
  · simp [assignTimestamp, hts]
  · simp [assignTimestamp, hts, hv]

section Steps
variable {remote : Remote} {s : SyncService} {r : Record}

theorem Follows.exchanged (h : Follows remote r) (exchange : Exchange)
    (hexchange : exchange.appliedIndex = none) :
    Follows remote {r with exchanges := exchange :: r.exchanges} := by
  refine {h with height := h.height.trans (remote.height_mono (Nat.le_succ _)), once := ?_}
  show (exchange :: r.exchanges).filterMap Exchange.appliedIndex = _
  rw [filterMap_cons_none hexchange]
  exact h.once

theorem Settled.exchanged (h : Settled remote r) (exchange : Exchange)
    (hexchange : exchange.appliedIndex = none) :
    Settled remote {r with exchanges := exchange :: r.exchanges} :=
  ⟨h.1.exchanged exchange hexchange, h.2⟩

def Reported (r : Record) : Prop :=
  r.exchanges.head? = some (.element (some .elementNotFound)) ∨
    r.exchanges.head? = some (.tip (.error .elementNotFound))

def Stopped (remote : Remote) (e : Error) (r : Record) : Prop :=
  Settled remote r ∧ (e = .rpc .elementNotFound → Reported r)

/-- The chain follows the remote at every point of the action, and after it unless it stops. -/
abbrev Syncs (remote : Remote) {α : Type} (action : Action α) (s : SyncService)
    (A : α → SyncService → Prop) : Prop :=
  Meets (fun t => Follows remote t.record) action s A fun e t => Stopped remote e t.record

theorem stamped_index_of_indexed (env : Env) (remote : Remote) (s : SyncService) (n : ℕ) :
    (stamped env s (remote.txs n)).index = some n := by
  rw [stamped_index, remote.indexed, Option.getD_some]

theorem Follows.indexed (h : Follows remote r) (hnext : next r.headIndex = r.chain.length)
    (queueIndex : Option ℕ) :
    Follows remote {r with headIndex := some r.chain.length, headQueueIndex := queueIndex} := by
  refine {h with verified := ?_}
  intro v hverified
  obtain ⟨i, hi, hle⟩ := h.verified v hverified
  rw [hi] at hnext
  exact ⟨_, rfl, by simp only [next] at hnext; omega⟩

theorem Follows.appended (h : Follows remote r)
    (hheight : r.chain.length < remote.height r.exchanges.length)
    (hholds : Holds applied (remote.txs r.chain.length)) :
    Follows remote {r with
      chain := r.chain ++ [applied]
      exchanges := .inclusion (some r.chain.length) :: r.exchanges} := by
  refine {h with height := ?height, holds := ?holds, once := ?once, batch := ?batch}
  case height =>
    have hmono : remote.height r.exchanges.length ≤ remote.height (r.exchanges.length + 1) :=
      remote.height_mono (Nat.le_succ _)
    simp only [length_append, length_cons, length_nil]
    omega
  case holds =>
    intro i x hx
    rcases Nat.lt_or_ge i r.chain.length with hlt | hge
    · rw [getElem?_append_left hlt] at hx
      exact h.holds i x hx
    · rw [getElem?_append_right hge, getElem?_singleton] at hx
      split at hx
      case isTrue hzero =>
        obtain rfl : i = r.chain.length := by omega
        rwa [← Option.some.inj hx]
      case isFalse => cases hx
  case once =>
    simp [Exchange.appliedIndex, h.once, range_succ]
  case batch =>
    intro b hb
    have := h.batch b hb
    simp only [length_append]
    omega

structure Applied (remote : Remote) (n : ℕ) (s t : SyncService) : Prop where
  settled : Settled remote t.record
  reached : n < t.chain.length
  tip : n = s.chain.length → t.chain.length = n + 1
  headBatchIndex : t.headBatchIndex = s.headBatchIndex
  exchanges : s.exchanges.length ≤ t.exchanges.length

variable {n : ℕ}

theorem Settled.verified (h : Settled remote r) (hn : n < r.chain.length) :
    Settled remote {r with headVerifiedIndex := some n} := by
  obtain ⟨hfollows, hnext⟩ := h
  refine ⟨{hfollows with verified := ?_}, hnext⟩
  rintro v ⟨⟩
  cases hindex : r.headIndex with
  | none =>
    rw [hindex] at hnext
    simp only [next] at hnext
    omega
  | some i =>
    rw [hindex] at hnext
    exact ⟨i, rfl, by simp only [next] at hnext; omega⟩

theorem Settled.batched (h : Settled remote r) {b : ℕ}
    (hb : remote.batchStart (b + 1) ≤ r.chain.length) :
    Settled remote {r with headBatchIndex := some b} := by
  obtain ⟨hfollows, hnext⟩ := h
  refine ⟨{hfollows with batch := ?_}, hnext⟩
  rintro _ ⟨⟩
  exact hb

theorem Settled.batchStart_le (h : Settled remote r) :
    remote.batchStart (next r.headBatchIndex) ≤ r.chain.length := by
  cases hbatch : r.headBatchIndex with
  | none => simp [next, remote.batchStart_zero]
  | some b => exact h.1.batch b hbatch

theorem Remote.slice_nil {start stop : ℕ} (h : remote.slice start stop = []) : stop ≤ start := by
  simp only [Remote.slice, map_eq_nil_iff, range'_eq_nil_iff] at h
  omega

theorem Remote.slice_cons {start stop : ℕ} {rest : List Transaction}
    (h : remote.slice start stop = tx :: rest) :
    start < stop ∧ tx = remote.txs start ∧ rest = remote.slice (start + 1) stop := by
  unfold Remote.slice at h ⊢
  cases hlength : stop - start with
  | zero =>
    rw [hlength] at h
    cases h
  | succ n =>
    rw [hlength, range'_succ, map_cons, cons.injEq] at h
    have hn : stop - (start + 1) = n := by omega
    exact ⟨by omega, h.1.symm, by rw [hn]; exact h.2.symm⟩

section Verifier
variable (hv : env.verifier = true) (hm : Reliable env)
include hv hm

variable (h : Settled remote s.record)
include h

theorem meets_tip (hn : n = s.chain.length) (hheight : n < remote.height s.exchanges.length) :
    Syncs remote (applyTransactionToTip env (remote.txs n)) s fun _ t => Applied remote n s t := by
  have hindex : (stamped env s (remote.txs n)).index = some s.chain.length := by
    rw [stamped_index_of_indexed, hn]
  have hindexed : ∀ q, Follows remote {s.record with
      headIndex := (stamped env s (remote.txs n)).index, headQueueIndex := q} := by
    rw [hindex]
    exact h.1.indexed h.2
  have hholds : Holds (stamped env s (remote.txs n)) (remote.txs s.chain.length) := by
    rw [← hn]
    exact holds_stamped hv s (by simp [remote.indexed])
  have happended : Follows remote (answered env s (remote.txs n)
      (s.chain ++ [stamped env s (remote.txs n)])) := by
    rw [answered, hindex]
    exact (hindexed _).appended (hn ▸ hheight) hholds
  -- the miner neither fails nor leaves the gas price oracle unreadable
  have hrejected : ∀ {e r}, Rejected env s (remote.txs n) e r →
      e = .missingTimestamp ∧ r = s.record := by
    intro e r hrejected
    obtain ⟨owner, howner⟩ := hm s.exchanges.length (stamped env s (remote.txs n))
    cases hrejected with
    | refused => exact ⟨rfl, rfl⟩
    | failed reason hfailed => cases howner.symm.trans hfailed
    | oracle reason hfailed => cases howner.symm.trans hfailed
  refine (meets_applyTransactionToTip s (remote.txs n)).mono ?_ ?_ ?_
  · intro t hstage
    generalize t.record = r at hstage ⊢
    cases hstage with
    | before => exact h.1
    | indexed => exact hindexed _
    | queued => exact hindexed _
    | failed reason hfailed =>
      obtain ⟨owner, howner⟩ := hm s.exchanges.length (stamped env s (remote.txs n))
      cases howner.symm.trans hfailed
    | included hincluded =>
      obtain ⟨oracle, _, rfl⟩ := hincluded
      exact happended
    | rejected hr =>
      rw [(hrejected hr).2]
      exact h.1
  · rintro _ t ⟨oracle, _, ht⟩
    have hchain : t.chain = s.chain ++ [stamped env s (remote.txs n)] := congrArg Record.chain ht
    have hlength : t.chain.length = n + 1 := by simp [hchain, hn]
    constructor
    case settled =>
      refine ⟨ht ▸ happended, ?_⟩
      rw [ht]
      show next (stamped env s (remote.txs n)).index = (s.chain ++ [_]).length
      simp [hindex, next]
    case reached => omega
    case tip => exact fun _ => hlength
    case headBatchIndex => exact congrArg Record.headBatchIndex ht
    case exchanges =>
      show s.exchanges.length ≤ t.record.exchanges.length
      rw [ht]
      simp [answered]
  · intro e t hr
    obtain ⟨rfl, hrecord⟩ := hrejected hr
    rw [hrecord]
    exact ⟨h, by simp⟩

theorem meets_applyIndexedTransaction (hn : n ≤ s.chain.length)
    (hheight : n < remote.height s.exchanges.length) :
    Syncs remote (applyIndexedTransaction env (remote.txs n)) s
      fun _ t => Applied remote n s t := by
  unfold applyIndexedTransaction
  rw [remote.indexed]
  refine .get_bind ?_
  have hnext : s.getNextIndex = s.chain.length := h.2
  rw [hnext]
  by_cases heq : n = s.chain.length
  · rw [if_pos heq]
    exact meets_tip hv hm h heq hheight
  · -- a transaction that is in the chain already
    have hlt : n < s.chain.length := by omega
    rw [if_neg heq, if_pos hlt]
    refine .get_bind ?_
    have hblock : s.getBlockByNumber (n + 1) = some [s.chain[n]] := by
      simp [SyncService.getBlockByNumber, hlt]
    have hholds : Holds s.chain[n] (remote.txs n) :=
      h.1.holds n _ (getElem?_eq_getElem hlt)
    rw [hblock]
    simp only [hholds.isCtcTxEqual, if_true]
    exact .pure ⟨h, hlt, fun hn => absurd hn heq, rfl, le_rfl⟩

theorem meets_applyBatchedTransaction (hn : n ≤ s.chain.length)
    (hheight : n < remote.height s.exchanges.length) :
    Syncs remote (applyBatchedTransaction env (remote.txs n)) s
      fun _ t => Applied remote n s t := by
  unfold applyBatchedTransaction
  rw [remote.indexed]
  refine .bind (meets_applyIndexedTransaction hv hm h hn hheight) fun _ t ht => ?_
  have hverified := ht.settled.verified ht.reached
  exact .modify hverified.1 ⟨hverified, ht.reached, ht.tip, ht.headBatchIndex, ht.exchanges⟩

theorem meets_batch {start stop : ℕ} (hstart : start ≤ s.chain.length) (hle : start ≤ stop)
    (hheight : stop ≤ remote.height s.exchanges.length) :
    Syncs remote (forEach (applyBatchedTransaction env) (remote.slice start stop)) s
      fun _ t => Settled remote t.record ∧ stop ≤ t.chain.length := by
  let J : List Transaction → SyncService → Prop := fun rest t =>
    ∃ k, rest = remote.slice k stop ∧ k ≤ stop ∧ Settled remote t.record ∧ k ≤ t.chain.length ∧
      stop ≤ remote.height t.exchanges.length
  refine (Meets.forEach (J := J) ?_ ⟨start, rfl, hle, h, hstart, hheight⟩).post ?_
  · rintro tx rest t ⟨k, hrest, hk, hsettled, hchain, hstop⟩
    obtain ⟨hlt, rfl, rfl⟩ := remote.slice_cons hrest.symm
    refine (meets_applyBatchedTransaction hv hm hsettled hchain (by omega)).post ?_
    intro _ u hu
    exact ⟨k + 1, rfl, hlt, hu.settled, hu.reached, hstop.trans (remote.height_mono hu.exchanges)⟩
  · rintro _ t ⟨k, hnil, hk, hsettled, hchain, -⟩
    have := Remote.slice_nil hnil.symm
    exact ⟨hsettled, by omega⟩

omit h in
theorem meets_syncTransactionBatchRange (hs : Serves env.client remote)
    (h : Settled remote s.record) (stop : ℕ) :
    Syncs remote (syncTransactionBatchRange env s.getNextBatchIndex stop) s
      fun _ t => Settled remote t.record ∧ stop < t.getNextBatchIndex := by
  let J : ℕ → SyncService → Prop := fun i t =>
    Settled remote t.record ∧ t.getNextBatchIndex = i
  refine (Meets.forRange (J := J) ?_ ⟨h, rfl⟩).post ?_
  · rintro i t ⟨hsettled, hi⟩
    refine .bind (B := fun txs u => Settled remote u.record ∧ u.getNextBatchIndex = i ∧
      txs = remote.slice (remote.batchStart i) (remote.batchStart (i + 1)) ∧
      remote.batchStart (i + 1) ≤ remote.height u.exchanges.length) (meets_request ?_ ?_) ?_
    · intro txs hanswer
      obtain ⟨hheight, htxs⟩ := hs.transactionBatch _ _ _ hanswer
      have hexchanged := hsettled.exchanged (.element none) rfl
      exact ⟨hexchanged.1, hexchanged, hi, htxs, hheight.trans (remote.height_mono (Nat.le_succ _))⟩
    · intro reason _
      have hexchanged := hsettled.exchanged (.element (some reason)) rfl
      exact ⟨hexchanged.1, hexchanged, fun he => .inl (by cases he; rfl)⟩
    · rintro _ u ⟨hu, hnext, rfl, hheight⟩
      have hstart : remote.batchStart i ≤ u.chain.length := hnext ▸ hu.batchStart_le
      refine .bind (meets_batch hv hm hu hstart (remote.batchStart_mono (Nat.le_succ _)) hheight) ?_
      rintro _ v ⟨hv, hreached⟩
      have hbatched := hv.batched hreached
      exact .modify hbatched.1 ⟨hbatched, rfl⟩
  · rintro _ t ⟨hsettled, hnext⟩
    exact ⟨hsettled, by omega⟩

omit h in
theorem meets_syncTransactionRange (hs : Serves env.client remote) (backend : Backend)
    (h : Settled remote s.record) (stop : ℕ) :
    Syncs remote (syncTransactionRange env backend s.getNextIndex stop) s
      fun _ t => Settled remote t.record ∧ stop < t.getNextIndex := by
  let J : ℕ → SyncService → Prop := fun i t => Settled remote t.record ∧ t.getNextIndex = i
  refine (Meets.forRange (J := J) ?_ ⟨h, rfl⟩).post ?_
  · rintro i t ⟨hsettled, hi⟩
    refine .bind (B := fun tx u => Settled remote u.record ∧ u.chain.length = i ∧
      tx = remote.txs i ∧ i < remote.height u.exchanges.length) (meets_request ?_ ?_) ?_
    · intro tx hanswer
      obtain ⟨hheight, htx⟩ := hs.transaction _ _ _ _ hanswer
      have hexchanged := hsettled.exchanged (.element none) rfl
      exact ⟨hexchanged.1, hexchanged, hsettled.2.symm.trans hi, htx,
        hheight.trans_le (remote.height_mono (Nat.le_succ _))⟩
    · intro reason _
      have hexchanged := hsettled.exchanged (.element (some reason)) rfl
      exact ⟨hexchanged.1, hexchanged, fun he => .inl (by cases he; rfl)⟩
    · rintro _ u ⟨hu, hlength, rfl, hheight⟩
      unfold applyTransaction
      rw [remote.indexed]
      refine (meets_applyIndexedTransaction hv hm hu hlength.ge hheight).post ?_
      intro _ v hv
      exact ⟨hv.settled, hv.settled.2.trans (hv.tip hlength.symm)⟩
  · rintro _ t ⟨hsettled, hnext⟩
    exact ⟨hsettled, by omega⟩

end Verifier

/-! ### Runs to the tip -/

/-- The last answer of the remote was its tip, and the local tip has reached it. -/
def CaughtUp (getNext : SyncService → ℕ) (s : SyncService) : Prop :=
  ∃ latest, s.exchanges.head? = some (.tip (.ok (some latest))) ∧ latest < getNext s

variable {getNext : SyncService → ℕ} (tip : ℕ → Except RpcError (Option ℕ))
  (hgetNext : ∀ t exchanges, getNext {t with exchanges} = getNext t)
include hgetNext

theorem meets_requestTip (h : Settled remote s.record) :
    Syncs remote (requestTip tip) s fun latest t => Settled remote t.record ∧
      getNext t = getNext s ∧ t.exchanges.head? = some (.tip (.ok latest)) := by
  have hexchanged := h.exchanged (.tip (tip s.exchanges.length)) rfl
  refine .get_bind (.bind (B := fun _ t =>
    t = {s with exchanges := .tip (tip s.exchanges.length) :: s.exchanges})
    (.modify hexchanged.1 rfl) ?_)
  rintro _ _ rfl
  cases htip : tip s.exchanges.length with
  | ok => exact .pure ⟨htip ▸ hexchanged, hgetNext _ _, rfl⟩
  | error =>
    refine .fail ⟨htip ▸ hexchanged, fun he => .inr ?_⟩
    cases he
    simp [SyncService.record]

variable {syncer : ℕ → ℕ → Action Unit}

theorem meets_sync (h : Settled remote s.record) (hsyncer : ∀ t stop, Settled remote t.record →
      Syncs remote (syncer (getNext t) stop) t fun _ u => Settled remote u.record ∧
        stop < getNext u) :
    Syncs remote (sync (requestTip tip) getNext syncer) s fun index t =>
      Settled remote t.record ∧ ∃ latest, index = some latest ∧ latest < getNext t := by
  refine .bind (meets_requestTip tip hgetNext h) fun latest t ht => ?_
  cases latest with
  | none => exact .fail ⟨ht.1, nofun⟩
  | some latest =>
    refine .get_bind ?_
    split
    case isTrue heq => exact .pure ⟨ht.1, latest, rfl, by omega⟩
    case isFalse =>
      exact .bind (hsyncer t latest ht.1) fun _ u hu => .pure ⟨hu.1, latest, rfl, hu.2⟩

theorem meets_isAtTip (h : Settled remote s.record) {index : ℕ} (hindex : index < getNext s) :
    Meets (fun t => Follows remote t.record) (isAtTip (some index) (requestTip tip)) s
      (fun done t => Settled remote t.record ∧ (done = true → CaughtUp getNext t))
      (fun _ t => Settled remote t.record) := by
  refine .bind (meets_requestTip tip hgetNext h).attempt fun answer t ht => ?_
  cases answer with
  | error =>
    -- an index that is not nil is not at a tip that was not found
    have hsettled : Settled remote t.record := ht.1
    split
    · exact .pure ⟨hsettled, nofun⟩
    · exact .fail hsettled
    · contradiction
  | ok latest =>
    obtain ⟨hsettled, hnext, hhead⟩ := ht
    cases latest with
    | none => exact .pure ⟨hsettled, nofun⟩
    | some latest =>
      simp only
      split
      case isTrue heq => exact .pure ⟨hsettled, fun _ => ⟨latest, hhead, by omega⟩⟩
      case isFalse =>
        split
        · exact .fail hsettled
        · exact .pure ⟨hsettled, nofun⟩

theorem meets_syncToTip (fuel : ℕ) (h : Settled remote s.record)
    (hsyncer : ∀ t stop, Settled remote t.record → Syncs remote (syncer (getNext t) stop) t
      fun _ u => Settled remote u.record ∧ stop < getNext u) :
    Meets (fun t => Follows remote t.record)
      (syncToTip (sync (requestTip tip) getNext syncer) (requestTip tip) fuel) s
      (fun done t => Settled remote t.record ∧
        (done = true → Reported t.record ∨ CaughtUp getNext t))
      (fun _ t => Settled remote t.record) := by
  let A : SyncService → Prop := fun t =>
    Settled remote t.record ∧ (Reported t.record ∨ CaughtUp getNext t)
  refine (Meets.loop (J := fun t : SyncService => Settled remote t.record) (A := A) ?_ h).post ?_
  · intro t ht
    refine .bind (meets_sync tip hgetNext ht hsyncer).attempt fun answer u hu => ?_
    cases answer with
    | error e =>
      have hstopped : Stopped remote e u.record := hu
      split
      case h_1 heq => exact .pure ⟨hstopped.1, .inl (hstopped.2 (Except.error.inj heq))⟩
      case h_2 => exact .fail hstopped.1
      case h_3 => contradiction
    | ok =>
      obtain ⟨hsettled, latest, rfl, hlt⟩ := hu
      refine (meets_isAtTip tip hgetNext hsettled hlt).post ?_
      rintro (_ | _) v ⟨hv, hdone⟩
      · exact hv
      · exact ⟨hv, .inr (hdone rfl)⟩
  · rintro (_ | _) t ht
    · exact ⟨ht, nofun⟩
    · exact ⟨ht.1, fun _ => ht.2⟩

end Steps

/-! ### Runs of a verifier -/

inductive Task where
  | batches
  | transactions
  deriving DecidableEq

def Task.toTip (env : Env) : Task → ℕ → Action Bool
  | .batches => syncBatchesToTip env
  | .transactions => syncTransactionsToTip env

def Task.getNext : Task → SyncService → ℕ
  | .batches => SyncService.getNextBatchIndex
  | .transactions => SyncService.getNextIndex

/-- Runs to the tip one after the other, each for a number of rounds and however it ends. -/
def verifierRun (env : Env) (tasks : List (Task × ℕ)) : Action Unit :=
  forEach (fun task => do
    let _ ← attempt (task.1.toTip env task.2)
    pure ()) tasks

variable {remote : Remote}

theorem meets_toTip (hv : env.verifier = true) (hm : Reliable env) (hs : Serves env.client remote)
    (task : Task) (fuel : ℕ) {s : SyncService} (h : Settled remote s.record) :
    Meets (fun t => Follows remote t.record) (task.toTip env fuel) s
      (fun done t => Settled remote t.record ∧
        (done = true → Reported t.record ∨ CaughtUp task.getNext t))
      (fun _ t => Settled remote t.record) := by
  cases task with
  | batches =>
    exact meets_syncToTip _ (fun _ _ => rfl) fuel h
      fun t stop ht => meets_syncTransactionBatchRange hv hm hs ht stop
  | transactions =>
    exact meets_syncToTip _ (fun _ _ => rfl) fuel h
      fun t stop ht => meets_syncTransactionRange hv hm hs env.backend ht stop

theorem settled_fresh (remote : Remote) : Settled remote SyncService.fresh.record := by
  refine ⟨⟨Nat.zero_le _, ?_, rfl, nofun, nofun, rfl⟩, rfl⟩
  intro i applied h
  simp [SyncService.record, SyncService.fresh] at h

theorem meets_verifierRun (hv : env.verifier = true) (hm : Reliable env)
    (hs : Serves env.client remote) (tasks : List (Task × ℕ)) :
    Meets (fun t => Follows remote t.record) (verifierRun env tasks) .fresh
      (fun _ t => Settled remote t.record) (fun _ _ => False) := by
  refine .forEach (J := fun _ (t : SyncService) => Settled remote t.record) (fun task _ t ht => ?_)
    (settled_fresh remote)
  refine .bind (meets_toTip hv hm hs task.1 task.2 ht).attempt fun result u hu => .pure ?_
  cases result with
  | ok => exact hu.1
  | error => exact hu

/-- At every point of every run the chain follows the remote, and a run to the tip returns only when
the remote has reported an element as not found or the local tip has reached the tip read last. -/
theorem verifier_follows_remote (env : Env) (remote : Remote) (hv : env.verifier = true)
    (hm : Reliable env) (hs : Serves env.client remote) (tasks : List (Task × ℕ)) :
    (∀ s ∈ SyncService.fresh :: ((verifierRun env tasks).run .fresh).trace,
      Follows remote s.record) ∧
    ∀ (task : Task) (fuel : ℕ) (s t : SyncService), s = ((verifierRun env tasks).run .fresh).state →
      t = ((task.toTip env fuel).run s).state → ((task.toTip env fuel).run s).result = .ok true →
      Reported t.record ∨ CaughtUp task.getNext t := by
  have hrun := meets_verifierRun hv hm hs tasks
  constructor
  · intro s hmem
    rcases List.mem_cons.mp hmem with rfl | htrace
    · exact (settled_fresh remote).1
    · exact hrun.1 s htrace
  · rintro task fuel s t rfl rfl hdone
    have hsettled : Settled remote ((verifierRun env tasks).run .fresh).state.record := by
      cases hres : ((verifierRun env tasks).run .fresh).result with
      | ok => exact hrun.of_ok hres
      | error => exact (hrun.of_error hres).elim
    exact ((meets_toTip hv hm hs task fuel hsettled).of_ok hdone).2 rfl

def tipRemote : Remote where
  txs i := {transferTx with
    index := some i, l1BlockNumber := some 3, l1Timestamp := 700 + i}
  indexed _ := rfl
  batchStart b := b
  batchStart_zero := rfl
  batchStart_mono := monotone_id
  height t := if t < 4 then 2 else 3
  height_mono := by
    intro a b hab
    simp only
    split_ifs <;> omega

def tipVerifier : Env :=
  {soleSequencer with
    verifier := true
    miner := fun _ _ => .included (.ok 0)
    client := {unavailable with
      latestTransactionBatchIndex := fun t => .ok (some (tipRemote.height t - 1))
      transactionBatch := fun t b =>
        if b < tipRemote.height t then .ok [tipRemote.txs b] else .error .elementNotFound}}

theorem tipVerifier_serves : Serves tipVerifier.client tipRemote where
  transaction _ _ _ _ h := nomatch h
  transactionBatch t b txs h := by
    simp only [tipVerifier] at h
    split at h
    case isTrue hlt =>
      refine ⟨hlt, (Except.ok.inj h).symm.trans ?_⟩
      simp [Remote.slice, tipRemote]
    case isFalse => cases h

theorem verifier_follows_sample :
    ((verifierRun tipVerifier [(.batches, 2)]).run .fresh).state.chain.length = 3 ∧
      (∀ s ∈ SyncService.fresh :: ((verifierRun tipVerifier [(.batches, 2)]).run .fresh).trace,
        Follows tipRemote s.record) ∧
      CaughtUp SyncService.getNextBatchIndex ((syncBatchesToTip tipVerifier 2).run
          ((verifierRun tipVerifier [(.batches, 2)]).run .fresh).state).state := by
  have hfollows := verifier_follows_remote tipVerifier tipRemote rfl
    (fun _ _ => ⟨0, rfl⟩) tipVerifier_serves [(.batches, 2)]
  refine ⟨rfl, hfollows.1, ?_⟩
  rcases hfollows.2 .batches 2 _ _ rfl rfl rfl with hreported | hcaught
  · rcases hreported with h | h <;> cases h
  · exact hcaught

end L2Geth.Rollup
