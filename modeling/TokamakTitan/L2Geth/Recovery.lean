import TokamakTitan.L2Geth.CrashPoints

/-! The restart of the sync service after a crash: which of the states on disk are repaired by
`initializeLatestL1`. -/
namespace L2Geth.Rollup
open List
open Traced (Program get modify fail Outcome Meets Leads Continues)

def crashPoints (env : Env) (txs : List Transaction) : List Record :=
  (SyncService.fresh :: ((applyAll env txs).run .fresh).trace).map SyncService.record

def restarted (r : Record) : SyncService :=
  {SyncService.fresh with
    headIndex := r.headIndex
    headQueueIndex := r.headQueueIndex
    headVerifiedIndex := r.headVerifiedIndex
    headBatchIndex := r.headBatchIndex
    chain := r.chain}

structure Recorded (r : Record) : Prop where
  headIndex : r.headIndex = none → r.chain = []
  headQueueIndex : r.headQueueIndex = none → ∀ tx ∈ r.chain, tx.queueIndex = none
  l1BlockNumber : ∀ tx ∈ r.chain, tx.l1BlockNumber ≠ none
  headBatchIndex : r.headBatchIndex = none

theorem stamped_l1BlockNumber (env : Env) (s : SyncService) (tx : Transaction) :
    (stamped env s tx).l1BlockNumber ≠ none := by
  unfold stamped assignIndex
  split <;> simp

variable {r : Record}

theorem Recorded.written {r' : Record} (h : Recorded r) (hindex : r'.headIndex ≠ none)
    (hqueue : r'.headQueueIndex = none → r.headQueueIndex = none) (hchain : r'.chain = r.chain)
    (hbatch : r'.headBatchIndex = r.headBatchIndex) : Recorded r' := by
  constructor
  case headIndex => exact fun hnone => absurd hnone hindex
  case headQueueIndex =>
    intro hnone
    rw [hchain]
    exact h.headQueueIndex (hqueue hnone)
  case l1BlockNumber =>
    rw [hchain]
    exact h.l1BlockNumber
  case headBatchIndex => exact hbatch.trans h.headBatchIndex

variable {env : Env} {s : SyncService} {tx : Transaction}

theorem Recorded.included (h : Recorded r) (hindex : r.headIndex ≠ none)
    (hqueue : r.headQueueIndex = none → tx.queueIndex = none) (hnumber : tx.l1BlockNumber ≠ none) :
    Recorded {r with chain := r.chain ++ [tx]} := by
  have hmem : ∀ {P : Transaction → Prop}, (∀ x ∈ r.chain, P x) → P tx →
      ∀ x ∈ r.chain ++ [tx], P x := by
    intro P hP htx
    exact forall_mem_append.mpr ⟨hP, by simpa using htx⟩
  constructor
  case headIndex => exact fun hnone => absurd hnone hindex
  case headQueueIndex => exact fun hnone => hmem (h.headQueueIndex hnone) (hqueue hnone)
  case l1BlockNumber => exact hmem h.l1BlockNumber hnumber
  case headBatchIndex => exact h.headBatchIndex

theorem recorded_of_stage (hstage : Stage env s tx r) (h : Recorded s.record) : Recorded r := by
  have hindex : (stamped env s tx).index ≠ none := by
    rw [stamped_index]
    exact Option.some_ne_none _
  have hundone : s.headIndex.or (stamped env s tx).index ≠ none := by
    intro hnone
    exact hindex (Option.or_eq_none_iff.mp hnone).2
  have hqueue : tx.queueIndex.or s.headQueueIndex = none → s.headQueueIndex = none :=
    fun hnone => (Option.or_eq_none_iff.mp hnone).2
  have hnew : tx.queueIndex.or s.headQueueIndex = none →
      (stamped env s tx).queueIndex = none := by
    rw [stamped_queueIndex]
    exact fun hnone => (Option.or_eq_none_iff.mp hnone).1
  have hnumber := stamped_l1BlockNumber env s tx
  cases hstage with
  | before => exact h
  | indexed => exact h.written hindex id rfl rfl
  | queued => exact h.written hindex hqueue rfl rfl
  | failed => exact h.written hindex hqueue rfl rfl
  | included hincluded =>
    obtain ⟨oracle, _, rfl⟩ := hincluded
    have hwritten : Recorded (answered env s tx s.chain) := h.written hindex hqueue rfl rfl
    exact hwritten.included hindex hnew hnumber
  | rejected hrejected =>
    cases hrejected with
    | refused => exact h
    | failed => exact h.written hundone hqueue rfl rfl
    | oracle =>
      have hwritten : Recorded (undone env s tx).record := h.written hundone hqueue rfl rfl
      exact hwritten.included hundone hnew hnumber

theorem applyTransactionToTip_recorded (env : Env) (tx : Transaction) (h : Recorded s.record) :
    Meets (fun t => Recorded t.record) (applyTransactionToTip env tx) s
      (fun _ t => Recorded t.record) (fun _ t => Recorded t.record) := by
  refine (meets_applyTransactionToTip s tx).mono ?_ ?_ ?_
  · exact fun t hstage => recorded_of_stage hstage h
  · exact fun _ t hincluded => recorded_of_stage (.included hincluded) h
  · exact fun _ t hrejected => recorded_of_stage (.rejected hrejected) h

theorem recorded_of_crashPoint {txs : List Transaction} (hr : r ∈ crashPoints env txs) :
    Recorded r := by
  have hfresh : Recorded SyncService.fresh.record :=
    ⟨fun _ => rfl, fun _ => nofun, nofun, rfl⟩
  have hrun : Meets (fun t => Recorded t.record) (applyAll env txs) .fresh
      (fun _ t => Recorded t.record) (fun _ _ => True) := by
    refine .forEach (J := fun _ (t : SyncService) => Recorded t.record) (fun tx _ t ht => ?_) hfresh
    refine .bind (applyTransactionToTip_recorded env tx ht).attempt fun result u hu => .pure ?_
    cases result <;> exact hu
  simp only [crashPoints, map_cons, mem_cons, mem_map] at hr
  rcases hr with rfl | ⟨t, ht, rfl⟩
  · exact hfresh
  · exact hrun.1 t ht

/-! ### The restart -/

/-- What the remote knows: the batch of each transaction, and the queue index of the last queue
element in the canonical transaction chain. -/
structure Source where
  batchOf : ℕ → Option ℕ
  confirmed : Option ℕ

/-- The remote answers the requests of a restart. -/
structure Answers (env : Env) (source : Source) : Prop where
  context : ∀ t height, ∃ context, env.client.ethContext t height = .ok context
  batch : ∀ t index, env.client.rawTransactionBatchIndex t index env.backend =
    .ok (source.batchOf index)
  unconfirmed : ∀ t, source.confirmed = none →
    env.client.lastConfirmedEnqueue t = .error .elementNotFound
  confirmed : ∀ t queueIndex, source.confirmed = some queueIndex →
    ∃ tx, env.client.lastConfirmedEnqueue t = .ok tx ∧ tx.queueIndex = some queueIndex

def tipIndex (chain : List Transaction) : Option ℕ :=
  if 0 < chain.length then some (chain.length - 1) else none

def lastQueueIndex (chain : List Transaction) : Option ℕ :=
  (chain.filterMap (·.queueIndex)).getLast?

theorem findQueueIndex_eq (s : SyncService) (queueIndex : ℕ) {n : ℕ} (h : n ≤ s.chain.length) :
    s.findQueueIndex queueIndex n = lastQueueIndex (s.chain.take n) := by
  induction n with
  | zero => rfl
  | succ n ih =>
    have hn : n < s.chain.length := h
    have hblock : s.getBlockByNumber (n + 1) = some [s.chain[n]] := by
      simp [SyncService.getBlockByNumber, hn]
    rw [SyncService.findQueueIndex, hblock, lastQueueIndex, take_succ_eq_append_getElem hn,
      filterMap_append, getLast?_append]
    cases hq : s.chain[n].queueIndex with
    | none => simp [hq, ih (Nat.le_of_lt hn), lastQueueIndex]
    | some => simp [hq]

def recoveredIndex (r : Record) : Option ℕ := r.headIndex.map (min · (r.chain.length - 1))

/-- What the batch index becomes: the batch before that of the transaction at the head index. -/
def recoveredBatchIndex (env : Env) (source : Source) (r : Record) : Option ℕ :=
  if env.verifier = true ∧ env.backend = .l1 then
    (r.headIndex.bind source.batchOf).map fun b => if 0 < b then b - 1 else b
  else none

/-- What the queue index becomes. Without a queue transaction in the chain, it stays. -/
def recoveredQueueIndex (source : Source) (r : Record) : Option ℕ :=
  match r.headQueueIndex with
  | none => source.confirmed
  | some queueIndex => (lastQueueIndex r.chain).or (some queueIndex)

def SyncService.heads (s : SyncService) : Option ℕ × Option ℕ × Option ℕ × List Transaction :=
  (s.headIndex, s.headQueueIndex, s.headBatchIndex, s.chain)

/-- The program returns without an error, with `Q` of the state that it leaves. -/
def Returns (m : Action Unit) (s : SyncService) (Q : SyncService → Prop) : Prop :=
  Meets (fun _ => True) m s (fun _ => Q) (fun _ _ => False)

variable {source : Source} {node : Env}

theorem returns_recoverContext (t : SyncService) (h : tx.l1BlockNumber ≠ none) :
    Returns (recoverContext [tx]) t fun u => u.heads = t.heads := by
  obtain ⟨number, hn⟩ := Option.ne_none_iff_exists'.mp h
  simp only [recoverContext, hn]
  exact .bind (B := fun _ u => u.heads = t.heads) (.modify trivial rfl)
    fun _ u hu => .modify trivial hu

theorem returns_initializeContext (ha : Answers node source) (height : ℕ) (t : SyncService) :
    Returns (initializeContext node (some height)) t fun u => u.heads = t.heads := by
  refine .bind (B := fun _ u => u.heads = t.heads) (meets_request ?_ ?_) fun context u hu => ?_
  · exact fun _ _ => ⟨trivial, rfl⟩
  · intro reason hreason
    obtain ⟨context, hcontext⟩ := ha.context t.exchanges.length height
    rw [hcontext] at hreason
    cases hreason
  · exact .bind (B := fun _ v => v.heads = t.heads) (.modify trivial hu)
      fun _ v hv => .modify trivial hv

theorem returns_recoverBatchIndex (ha : Answers node source) (index : ℕ) (t : SyncService)
    (hserved : node.verifier = true → node.backend = .l1 → source.batchOf index ≠ none) :
    Returns (recoverBatchIndex node index) t fun u =>
      u.heads = (t.headIndex, t.headQueueIndex, if node.verifier = true ∧ node.backend = .l1 then
        (source.batchOf index).map (fun b => if 0 < b then b - 1 else b) else t.headBatchIndex,
        t.chain) := by
  unfold recoverBatchIndex
  by_cases hl1 : node.verifier = true ∧ node.backend = .l1
  · rw [if_pos hl1, if_pos hl1]
    obtain ⟨b, hb⟩ := Option.ne_none_iff_exists'.mp (hserved hl1.1 hl1.2)
    refine .bind (B := fun a u => a = some b ∧ u.heads = t.heads) (meets_request ?_ ?_) ?_
    · intro a h
      rw [ha.batch, hb] at h
      exact ⟨trivial, (Except.ok.inj h).symm, rfl⟩
    · intro reason h
      rw [ha.batch] at h
      cases h
    · rintro _ u ⟨rfl, hu⟩
      refine .modify trivial ?_
      simp only [SyncService.heads, Prod.mk.injEq] at hu ⊢
      exact ⟨hu.1, hu.2.1, by rw [hb]; rfl, hu.2.2.2⟩
  · rw [if_neg hl1, if_neg hl1]
    exact .pure rfl

theorem returns_recoverIndex (t : SyncService) (index : ℕ) (hpos : 0 < t.chain.length)
    (hindex : t.headIndex = some index) (hnumber : ∀ tx ∈ t.chain, tx.l1BlockNumber ≠ none) :
    Returns (recoverIndex index) t fun u =>
      u.heads = (some (min index (t.chain.length - 1)), t.headQueueIndex, t.headBatchIndex,
        t.chain) := by
  unfold recoverIndex
  refine .get_bind ?_
  by_cases hlt : index < t.chain.length
  · -- the block of the latest index is in the chain
    have hblock : t.getBlockByNumber (index + 1) = some [t.chain[index]] := by
      simp [SyncService.getBlockByNumber, hlt]
    have hmin : min index (t.chain.length - 1) = index := by omega
    rw [hblock, hmin]
    refine (returns_recoverContext t (hnumber _ (getElem_mem hlt))).post ?_
    intro _ u hu
    rw [hu, SyncService.heads, hindex]
  · -- the index was written and the block was not appended
    have hblock : t.getBlockByNumber (index + 1) = none := by
      simpa [SyncService.getBlockByNumber] using hlt
    have hmin : min index (t.chain.length - 1) = t.chain.length - 1 := by omega
    obtain ⟨last, hlast⟩ : ∃ last, t.chain.getLast? = some last :=
      ⟨_, getLast?_eq_getLast_of_ne_nil (ne_nil_of_length_pos hpos)⟩
    have hcurrent : t.currentBlock = [last] := by rw [SyncService.currentBlock, hlast]; rfl
    rw [hblock, hmin]
    simp only [if_neg hlt, if_pos hpos, hcurrent]
    refine .bind (B := fun _ u => u.heads =
      (some (t.chain.length - 1), t.headQueueIndex, t.headBatchIndex, t.chain))
      (.modify trivial rfl) fun _ u hu => ?_
    exact (returns_recoverContext u (hnumber last (mem_of_getLast? hlast))).post
      fun _ v hv => hv.trans hu

theorem returns_recoverHead (ha : Answers node source) (height : ℕ) (hr : Recorded r)
    (hpos : r.headIndex ≠ none → 0 < r.chain.length)
    (hserved : node.verifier = true → node.backend = .l1 → ∀ index, r.headIndex = some index →
      source.batchOf index ≠ none) :
    Returns (recoverHead node (some height)) (restarted r) fun u =>
      u.heads = (recoveredIndex r, r.headQueueIndex, recoveredBatchIndex node source r,
        r.chain) := by
  refine .get_bind ?_
  show Returns (match r.headIndex with
    | none => initializeContext node (some height)
    | some index => recoverBatchIndex node index >>= fun _ => recoverIndex index) (restarted r) _
  have hbatch := hr.headBatchIndex
  cases hindex : r.headIndex with
  | none =>
    refine (returns_initializeContext ha height _).post ?_
    intro _ u hu
    rw [hu]
    simp [SyncService.heads, restarted, recoveredIndex, recoveredBatchIndex, hindex, hbatch]
  | some index =>
    refine .bind (returns_recoverBatchIndex ha index (restarted r)
      fun hv hb => hserved hv hb index hindex) fun _ t ht => ?_
    simp only [SyncService.heads, Prod.mk.injEq] at ht
    obtain ⟨hi, hq, hb, hc⟩ := ht
    have hposition : 0 < t.chain.length := by
      rw [hc]
      exact hpos (by simp [hindex])
    have hnumber : ∀ tx ∈ t.chain, tx.l1BlockNumber ≠ none := by
      rw [hc]
      exact hr.l1BlockNumber
    refine (returns_recoverIndex t index hposition (hi.trans hindex) hnumber).post ?_
    intro _ u hu
    rw [hu, hq, hb, hc]
    simp [recoveredIndex, recoveredBatchIndex, hindex, restarted, hbatch]

theorem recoverHead_panics (height : ℕ) (hindex : r.headIndex ≠ none) (hchain : r.chain = []) :
    Meets (fun _ => True) (recoverHead node (some height)) (restarted r) (fun _ _ => False)
      (fun _ _ => True) := by
  obtain ⟨index, hi⟩ := Option.ne_none_iff_exists'.mp hindex
  have hbatch : ∀ t : SyncService, Meets (fun _ => True) (recoverBatchIndex node index) t
      (fun _ u => u.chain = t.chain) (fun _ _ => True) := by
    intro t
    unfold recoverBatchIndex
    split
    · refine .bind (B := fun _ u => u.chain = t.chain)
        (meets_request (fun _ _ => ⟨trivial, rfl⟩) fun _ _ => ⟨trivial, trivial⟩) fun b u hu => ?_
      cases b with
      | none => exact .fail trivial
      | some => exact .modify trivial hu
    · exact .pure rfl
  refine .get_bind ?_
  rw [show (restarted r).headIndex = some index from hi]
  refine .bind (hbatch _) fun _ t ht => .get_bind ?_
  rw [show (restarted r).chain = r.chain from rfl, hchain] at ht
  have hblock : t.getBlockByNumber (index + 1) = none := by simp [SyncService.getBlockByNumber, ht]
  have hcurrent : t.currentBlock = [] := by simp [SyncService.currentBlock, ht]
  rw [hblock, hcurrent]
  simp only [ht, length_nil, Nat.not_lt_zero, if_false]
  exact .bind (B := fun _ _ => True) (.pure trivial) fun _ u _ => .fail trivial

theorem attempt_request {α : Type} (answer : ℕ → Except RpcError α) (t : SyncService) :
    Meets (fun _ => True) (Traced.attempt (request answer)) t
      (fun a u => a = (answer t.exchanges.length).mapError .rpc ∧ u.heads = t.heads)
      (fun _ _ => False) := by
  refine (Meets.attempt (A := fun a u => answer t.exchanges.length = .ok a ∧ u.heads = t.heads)
    (E := fun e u => (answer t.exchanges.length).mapError .rpc = .error e ∧ u.heads = t.heads)
    (meets_request ?_ ?_)).post ?_
  · exact fun a ha => ⟨trivial, ha, rfl⟩
  · exact fun reason hreason => ⟨trivial, by rw [hreason]; rfl, rfl⟩
  · rintro (e | a) u ⟨ha, hu⟩
    · exact ⟨ha.symm, hu⟩
    · exact ⟨by rw [ha]; rfl, hu⟩

theorem returns_recoverQueueIndex (ha : Answers node source) (t : SyncService)
    (hq : t.headQueueIndex = r.headQueueIndex) (hc : t.chain = r.chain) :
    Returns (recoverQueueIndex node) t fun u =>
      u.heads = (t.headIndex, recoveredQueueIndex source r, t.headBatchIndex, t.chain) := by
  refine .get_bind ?_
  cases hlatest : t.headQueueIndex with
  | some queueIndex =>
    have hfind : t.findQueueIndex queueIndex t.chain.length = lastQueueIndex r.chain := by
      rw [findQueueIndex_eq t queueIndex le_rfl, take_length, hc]
    have hrecovered : recoveredQueueIndex source r =
        (lastQueueIndex r.chain).or (some queueIndex) := by
      rw [recoveredQueueIndex, ← hq, hlatest]
    simp only [hfind, hrecovered]
    refine meets_setHead (fun hnone => ?_) fun q hsome => ⟨trivial, ?_⟩
    · simp [hnone, SyncService.heads, hlatest]
    · simp [hsome, SyncService.heads]
  | none =>
    have hrecovered : recoveredQueueIndex source r = source.confirmed := by
      rw [recoveredQueueIndex, ← hq, hlatest]
    rw [hrecovered]
    refine .bind (attempt_request node.client.lastConfirmedEnqueue t) ?_
    rintro _ u ⟨rfl, hu⟩
    simp only [SyncService.heads, Prod.mk.injEq] at hu
    obtain ⟨hui, huq, hub, huc⟩ := hu
    cases hconfirmed : source.confirmed with
    | none =>
      rw [ha.unconfirmed _ hconfirmed]
      refine .pure ?_
      rw [SyncService.heads, hui, huq, hub, huc, hlatest]
    | some queueIndex =>
      obtain ⟨enqueue, hanswer, hindex⟩ := ha.confirmed t.exchanges.length queueIndex hconfirmed
      rw [hanswer]
      simp only [Except.mapError, hindex]
      refine .modify trivial ?_
      simp only [SyncService.heads, hui, hub, huc]

/-! ### What a restart has to bring back -/

/-- The restart returns, the indexes say what is in the chain, and the next batch is not past that
of the next transaction. -/
structure Recovered (node : Env) (source : Source) (chain : List Transaction)
    (o : Outcome SyncService Error Unit) : Prop where
  returns : o.result = .ok ()
  chain_eq : o.state.chain = chain
  headIndex : o.state.headIndex = tipIndex chain
  headQueueIndex : o.state.headQueueIndex = lastQueueIndex chain
  nextBatch : node.verifier = true → node.backend = .l1 →
    ∀ b, source.batchOf chain.length = some b → o.state.getNextBatchIndex ≤ b

/-- A head index comes with a block and is not behind the chain; a queue index comes with a queue
transaction in the chain, and without one the remote has no confirmed queue element; for a verifier
on L1, the next transaction is not in batch zero, nor in a batch before that of the transaction at
the head index. -/
structure Repairable (node : Env) (source : Source) (r : Record) : Prop where
  headIndex : ∀ index, r.headIndex = some index → 0 < r.chain.length ∧ r.chain.length ≤ index + 1
  queued : r.headQueueIndex ≠ none → ∃ tx ∈ r.chain, tx.queueIndex ≠ none
  unqueued : r.headQueueIndex = none → source.confirmed = none
  batch : node.verifier = true → node.backend = .l1 → ∀ index b b', r.headIndex = some index →
    source.batchOf index = some b → source.batchOf r.chain.length = some b' → b ≤ b' ∧ 0 < b'

theorem lastQueueIndex_ne_none_iff (chain : List Transaction) :
    lastQueueIndex chain ≠ none ↔ ∃ tx ∈ chain, tx.queueIndex ≠ none := by
  simp [lastQueueIndex, Option.ne_none_iff_exists']

theorem recoveredIndex_iff (hr : Recorded r) (hpos : r.headIndex ≠ none → 0 < r.chain.length) :
    recoveredIndex r = tipIndex r.chain ↔
      ∀ index, r.headIndex = some index → 0 < r.chain.length ∧ r.chain.length ≤ index + 1 := by
  cases hindex : r.headIndex with
  | none => simp [recoveredIndex, tipIndex, hindex, hr.headIndex hindex]
  | some index =>
    have hlength : 0 < r.chain.length := hpos (by simp [hindex])
    have hmin : min index (r.chain.length - 1) = r.chain.length - 1 ↔
        r.chain.length ≤ index + 1 := by omega
    simp [recoveredIndex, tipIndex, hindex, hlength, hmin]

theorem recoveredQueueIndex_iff (hr : Recorded r) :
    recoveredQueueIndex source r = lastQueueIndex r.chain ↔
      (r.headQueueIndex ≠ none → ∃ tx ∈ r.chain, tx.queueIndex ≠ none) ∧
        (r.headQueueIndex = none → source.confirmed = none) := by
  rw [← lastQueueIndex_ne_none_iff]
  cases hqueue : r.headQueueIndex with
  | none =>
    have hlast : lastQueueIndex r.chain = none := by
      by_contra hsome
      obtain ⟨tx, htx, hq⟩ := (lastQueueIndex_ne_none_iff _).mp hsome
      exact hq (hr.headQueueIndex hqueue tx htx)
    simp [recoveredQueueIndex, hqueue, hlast]
  | some =>
    cases hlast : lastQueueIndex r.chain <;> simp [recoveredQueueIndex, hqueue, hlast]

theorem recoveredBatchIndex_iff
    (hserved : node.verifier = true → node.backend = .l1 → ∀ index, r.headIndex = some index →
      source.batchOf index ≠ none) :
    (node.verifier = true → node.backend = .l1 → ∀ b, source.batchOf r.chain.length = some b →
      next (recoveredBatchIndex node source r) ≤ b) ↔
    (node.verifier = true → node.backend = .l1 → ∀ index b b', r.headIndex = some index →
      source.batchOf index = some b → source.batchOf r.chain.length = some b' →
        b ≤ b' ∧ 0 < b') := by
  refine forall_congr' fun hv => forall_congr' fun hb => ?_
  cases hindex : r.headIndex with
  | none => simp [recoveredBatchIndex, hv, hb, hindex, next]
  | some index =>
    obtain ⟨b, hbatch⟩ := Option.ne_none_iff_exists'.mp (hserved hv hb index hindex)
    have hnext : next (recoveredBatchIndex node source r) = max b 1 := by
      simp only [recoveredBatchIndex, hv, hb, and_self, if_true, hindex, Option.bind_some, hbatch,
        Option.map_some, next]
      split <;> omega
    rw [hnext]
    constructor
    · rintro h _ _ b' ⟨⟩ hb₁ hb'
      obtain rfl : b = _ := Option.some.inj (hbatch.symm.trans hb₁)
      have := h b' hb'
      omega
    · intro h b' hb'
      have := h index b b' rfl hbatch hb'
      omega

theorem returns_initializeLatestL1 (ha : Answers node source) (height : ℕ) (hr : Recorded r)
    (hpos : r.headIndex ≠ none → 0 < r.chain.length)
    (hserved : node.verifier = true → node.backend = .l1 → ∀ index, r.headIndex = some index →
      source.batchOf index ≠ none) :
    Returns (initializeLatestL1 node (some height)) (restarted r) fun u =>
      u.heads = (recoveredIndex r, recoveredQueueIndex source r,
        recoveredBatchIndex node source r, r.chain) := by
  refine .bind (returns_recoverHead ha height hr hpos hserved) fun _ t ht => ?_
  simp only [SyncService.heads, Prod.mk.injEq] at ht
  obtain ⟨hi, hq, hb, hc⟩ := ht
  refine (returns_recoverQueueIndex ha t hq hc).post ?_
  intro _ u hu
  rw [hu, hi, hb, hc]

/-- After a crash at any point of any run of calls, a restart recovers exactly from the states
that are repairable. -/
theorem restart_recovers_iff (env : Env) (txs : List Transaction) (r : Record)
    (hr : r ∈ crashPoints env txs) (node : Env) (source : Source) (ha : Answers node source)
    (height : ℕ)
    (hserved : node.verifier = true → node.backend = .l1 → ∀ index, r.headIndex = some index →
      source.batchOf index ≠ none) :
    Recovered node source r.chain ((initializeLatestL1 node (some height)).run (restarted r)) ↔
      Repairable node source r := by
  have hrecorded := recorded_of_crashPoint hr
  by_cases hpos : r.headIndex ≠ none → 0 < r.chain.length
  · -- the restart returns, and each index is compared with the chain
    have hreturns := returns_initializeLatestL1 ha height hrecorded hpos hserved
    set o := (initializeLatestL1 node (some height)).run (restarted r) with ho
    have hresult : o.result = .ok () := by
      cases hres : o.result with
      | ok => rfl
      | error => exact (hreturns.of_error hres).elim
    have hheads := hreturns.of_ok hresult
    simp only [SyncService.heads, Prod.mk.injEq] at hheads
    obtain ⟨hi, hq, hb, hc⟩ := hheads
    have hbatch : o.state.getNextBatchIndex = next (recoveredBatchIndex node source r) :=
      congrArg next hb
    constructor
    · intro h
      have hqueue := (recoveredQueueIndex_iff hrecorded).mp (hq.symm.trans h.headQueueIndex)
      constructor
      case headIndex =>
        exact (recoveredIndex_iff hrecorded hpos).mp (hi.symm.trans h.headIndex)
      case queued => exact hqueue.1
      case unqueued => exact hqueue.2
      case batch => exact (recoveredBatchIndex_iff hserved).mp (hbatch ▸ h.nextBatch)
    · intro h
      constructor
      case returns => exact hresult
      case chain_eq => exact hc
      case headIndex =>
        exact hi.trans ((recoveredIndex_iff hrecorded hpos).mpr h.headIndex)
      case headQueueIndex =>
        exact hq.trans ((recoveredQueueIndex_iff hrecorded).mpr ⟨h.queued, h.unqueued⟩)
      case nextBatch =>
        rw [hbatch]
        exact (recoveredBatchIndex_iff hserved).mpr h.batch
  · have hneg : r.headIndex ≠ none ∧ r.chain = [] := by
      obtain ⟨hindex, hlength⟩ := Classical.not_imp.mp hpos
      exact ⟨hindex, List.eq_nil_of_length_eq_zero (by omega)⟩
    refine iff_of_false (fun hrec => ?_) fun hrep => ?_
    · have hpanic : Meets (fun _ => True) (initializeLatestL1 node (some height)) (restarted r)
          (fun _ _ => False) (fun _ _ => True) :=
        .bind (recoverHead_panics height hneg.1 hneg.2) fun _ _ h => h.elim
      exact hpanic.of_ok hrec.returns
    · obtain ⟨index, hindex⟩ := Option.ne_none_iff_exists'.mp hneg.1
      have := (hrep.headIndex index hindex).1
      simp [hneg.2] at this

def soleSource : Source where
  batchOf _ := some 0
  confirmed := none

def restartNode (verifier : Bool) : Env :=
  {soleSequencer with
    verifier
    client := {unavailable with
      ethContext := fun _ height => .ok ⟨height, 900⟩
      rawTransactionBatchIndex := fun _ _ _ => .ok (some 0)}}

theorem restartNode_answers (verifier : Bool) : Answers (restartNode verifier) soleSource where
  context _ height := ⟨⟨height, 900⟩, rfl⟩
  batch _ _ := rfl
  unconfirmed _ _ := rfl
  confirmed _ _ h := nomatch h

/-- The crash points of a sequencer that applies two transactions, the second one in vain. -/
def crashRecords : List Record := crashPoints soleSequencer [transferTx, transferTx]

def restart (verifier : Bool) (r : Record) : Outcome SyncService Error Unit :=
  (initializeLatestL1 (restartNode verifier) (some 5)).run (restarted r)

theorem restart_recovers_sample :
    ∃ r ∈ crashRecords, r.headIndex = some 1 ∧ r.chain.length = 1 ∧
      Recovered (restartNode false) soleSource r.chain (restart false r) := by
  have hmem : crashRecords[4] ∈ crashRecords := List.getElem_mem _
  refine ⟨crashRecords[4], hmem, rfl, rfl, ?_⟩
  refine (restart_recovers_iff _ _ _ hmem _ _ (restartNode_answers false) 5 nofun).mpr ?_
  constructor
  case headIndex =>
    intro index hindex
    obtain rfl : 1 = index := Option.some.inj hindex
    exact ⟨by decide, by decide⟩
  case queued => exact fun h => absurd rfl h
  case unqueued => exact fun _ => rfl
  case batch => nofun

def batchedTx : Transaction :=
  {transferTx with l1BlockNumber := some 3, l1Timestamp := 700, index := some 0}

/-- Three crashes that a restart does not repair: between the index and the block of the very first
transaction it panics; in the middle of batch zero it goes on with batch one; between the indexes
and the block of the first queue transaction, that one counts as processed. -/
theorem restart_fails :
    (∃ r ∈ crashPoints soleSequencer [transferTx],
      (restart false r).result = .error (.panic "Cannot recover OVM Context") ∧
        ¬ Recovered (restartNode false) soleSource r.chain (restart false r)) ∧
    (∃ r ∈ crashPoints (restartNode true) [batchedTx], soleSource.batchOf r.chain.length = some 0 ∧
      (restart true r).state.getNextBatchIndex = 1 ∧
        ¬ Recovered (restartNode true) soleSource r.chain (restart true r)) ∧
    ∃ r ∈ crashPoints soleSequencer [transferTx, enqueuedTx], lastQueueIndex r.chain = none ∧
      (restart false r).state.headQueueIndex = enqueuedTx.queueIndex ∧
        ¬ Recovered (restartNode false) soleSource r.chain (restart false r) := by
  refine ⟨?_, ?_, ?_⟩
  · refine ⟨_, List.getElem_mem (n := 2) (by decide), rfl, fun h => ?_⟩
    cases h.returns
  · refine ⟨_, List.getElem_mem (n := 4) (by decide), rfl, rfl, fun h => ?_⟩
    exact absurd (h.nextBatch rfl rfl 0 rfl) (by decide)
  · refine ⟨_, List.getElem_mem (n := 6) (by decide), rfl, rfl, fun h => ?_⟩
    cases h.headQueueIndex

end L2Geth.Rollup
