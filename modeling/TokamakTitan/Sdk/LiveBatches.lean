import TokamakTitan.Sdk.StateBatches

/-! The client against the contract: for every history of state batches, which transactions resolve
to their live batch, and that the proofs of their state roots are accepted. -/
namespace Sdk
open Checked Abi Rollup Transactions Bisection List BitVec Nat
open Rollup.LibMerkleTree (hashPair)
open Rollup.StateCommitmentChain (Parameters HeaderHashInjective verifyStateCommitment)
open Rollup.System (Ledger Log totalSize totalSize_append exec init)

def batchOf (tx : Message × SystemCall) : List Bytes32 :=
  match tx.2 with
  | .scc (.appendStateBatch batch _) => batch
  | _ => []

def RootsFit (tx : Message × SystemCall) : Prop := (batchOf tx).length < 2 ^ 256

def appendedBy (roots : List Bytes32) : SystemEvent → Option StateBatchAppended
  | .scc (.stateBatchAppended header) => some ⟨header, roots⟩
  | _ => none

def appendEvents {H : Type} (log : Log H) : List StateBatchAppended :=
  log.flatMap fun t => t.events.filterMap (appendedBy (batchOf t.tx))

def applyAppended (roots : List Bytes32) (live : List StateBatchAppended) :
    SystemEvent → List StateBatchAppended
  | .scc (.stateBatchAppended header) => live ++ [⟨header, roots⟩]
  | .scc (.stateBatchDeleted batchIndex _) => live.take batchIndex.toNat
  | .ctc _ => live

def liveBatches {H : Type} (log : Log H) : List StateBatchAppended :=
  log.foldl (fun live t => t.events.foldl (applyAppended (batchOf t.tx)) live) []

def committedRoots (live : List StateBatchAppended) : List Bytes32 := live.flatMap (·.stateRoots)

def sccParameters (fraudProofWindow sequencerPublishWindow : Uint256) : Parameters where
  FRAUD_PROOF_WINDOW := fraudProofWindow
  SEQUENCER_PUBLISH_WINDOW := sequencerPublishWindow
  getMerkleRoot := LibMerkleTree.getMerkleRoot
  verify := LibMerkleTree.verify

variable {H : Type} {keccak : Bytes → H} {s : System H} {live : List StateBatchAppended}

section Ledger

variable {log : Log H}

/-- The live batches are those of the contract, each appended by an event, and its header holds the
root and the number of its state roots. -/
structure Committed (keccak : Bytes → H) (s : System H) (events live : List StateBatchAppended) :
    Prop where
  ledger : Ledger keccak s (live.map (·.header))
  batches : ∀ b ∈ live, b ∈ events ∧
    LibMerkleTree.getMerkleRoot b.stateRoots = .ok b.header.batchRoot ∧
    b.stateRoots.length = b.header.batchSize.toNat

theorem map_header_foldl (roots : List Bytes32) (live : List StateBatchAppended)
    (events : List SystemEvent) :
    (events.foldl (applyAppended roots) live).map (·.header) =
      events.foldl System.applyEvent (live.map (·.header)) := by
  induction events generalizing live with
  | nil => rfl
  | cons event events ih =>
    rw [foldl_cons, foldl_cons, ih]
    congr 1
    cases event with
    | ctc => rfl
    | scc event =>
      cases event with
      | stateBatchAppended => simp [applyAppended, System.applyEvent]
      | stateBatchDeleted => simp [applyAppended, System.applyEvent]

theorem foldl_applyAppended_ctc (roots : List Bytes32) (live : List StateBatchAppended)
    (events : List CanonicalTransactionChain.Event) :
    (events.map SystemEvent.ctc).foldl (applyAppended roots) live = live := by
  induction events with
  | nil => rfl
  | cons event events ih => exact ih

variable [DecidableEq H] {d : Deployment} {window publish : Uint256}

variable {tx : Message × SystemCall} {events : List SystemEvent} {s' : System H}

theorem exec_effect (hexec : exec keccak d (sccParameters window publish) s tx = .ok (s', events)) :
    (∀ live, events.foldl (applyAppended (batchOf tx)) live = live) ∨
    (∃ k, ∀ live, events.foldl (applyAppended (batchOf tx)) live = live.take k) ∨
    ∃ header, events = [.scc (.stateBatchAppended header)] ∧
      LibMerkleTree.getMerkleRoot (batchOf tx) = .ok header.batchRoot ∧
      header.batchSize = BitVec.ofNat 256 (batchOf tx).length := by
  obtain ⟨msg, call⟩ := tx
  cases call with
  | ctc =>
    simp only [exec, bind_eq_ok, pure_eq_ok, Prod.mk.injEq] at hexec
    obtain ⟨⟨ctc, ctcEvents⟩, _, _, rfl⟩ := hexec
    exact .inl fun live => foldl_applyAppended_ctc _ live _
  | scc call =>
    simp only [exec, bind_eq_ok, pure_eq_ok, Prod.mk.injEq] at hexec
    obtain ⟨⟨scc, sccEvents⟩, hscc, _, rfl⟩ := hexec
    cases call with
    | appendStateBatch batch start =>
      obtain ⟨header, rfl, hroot, hsize, -⟩ := StateCommitmentChain.appendStateBatch_roots
        ⟨msg, s.ctc.getTotalElements, .appendStateBatch batch start⟩ hscc
      exact .inr (.inr ⟨header, rfl, hroot, hsize⟩)
    | deleteStateBatch header =>
      let call : StateCommitmentChain.Tx :=
        ⟨msg, s.ctc.getTotalElements, .deleteStateBatch header⟩
      have hdelete : StateCommitmentChain.deleteStateBatch keccak d (sccParameters window publish)
          call.msg header s.scc = .ok (scc, sccEvents) := hscc
      obtain ⟨rfl, _⟩ := StateCommitmentChain.deleteStateBatch_eq_ok hdelete
      exact .inr (.inl ⟨header.batchIndex.toNat, fun live => rfl⟩)

theorem Committed.step {appended : List StateBatchAppended} (h : Committed keccak s appended live)
    (hinj : HeaderHashInjective keccak) (hfits : RootsFit tx)
    (hexec : exec keccak d (sccParameters window publish) s tx = .ok (s', events)) :
    Committed keccak s' (appended ++ events.filterMap (appendedBy (batchOf tx)))
      (events.foldl (applyAppended (batchOf tx)) live) := by
  have hledger : Ledger keccak s'
      ((events.foldl (applyAppended (batchOf tx)) live).map (·.header)) := by
    rw [map_header_foldl]
    exact h.ledger.step hinj hexec
  have hold : ∀ b ∈ live, b ∈ appended ++ events.filterMap (appendedBy (batchOf tx)) ∧ _ :=
    fun b hb => (h.batches b hb).imp_left (mem_append_left _)
  refine ⟨hledger, ?_⟩
  rcases exec_effect hexec with hsame | ⟨k, htake⟩ | ⟨header, rfl, hroot, hsize⟩
  · rw [hsame]
    exact hold
  · rw [htake]
    exact fun b hb => hold b (mem_of_mem_take hb)
  · have hlive : [SystemEvent.scc (.stateBatchAppended header)].foldl
        (applyAppended (batchOf tx)) live = live ++ [⟨header, batchOf tx⟩] := rfl
    have hsize' : (batchOf tx).length = header.batchSize.toNat := by
      rw [hsize, toNat_ofNat, mod_eq_of_lt hfits]
    rw [hlive, forall_mem_append]
    exact ⟨hold, by simp [appendedBy, hroot, hsize']⟩

theorem committed_run (hinj : HeaderHashInjective keccak) (zero : H)
    (maxGas divisor cost : Uint256) (txs : List (Message × SystemCall))
    (hfits : ∀ tx ∈ txs, RootsFit tx) :
    let params := sccParameters window publish
    let start := init zero maxGas divisor cost
    Committed keccak (run (exec keccak d params) start txs)
      (appendEvents (trace (exec keccak d params) start txs))
      (liveBatches (trace (exec keccak d params) start txs)) := by
  intro params start
  have hrun : (∀ t ∈ trace (exec keccak d params) start txs, RootsFit t.tx) →
      Committed keccak (run (exec keccak d params) start txs)
        (appendEvents (trace (exec keccak d params) start txs))
        (liveBatches (trace (exec keccak d params) start txs)) := by
    apply run_invariant (P := fun s log => (∀ t ∈ log, RootsFit t.tx) →
      Committed keccak s (appendEvents log) (liveBatches log))
    · intro _
      exact ⟨System.ledger_init zero maxGas divisor cost, by simp [liveBatches]⟩
    · intro s s' log tx events ih hexec hall
      rw [forall_mem_append] at hall
      have hstep := (ih hall.1).step hinj (hall.2 _ (mem_singleton_self _)) hexec
      simpa [appendEvents, liveBatches] using hstep
  apply hrun
  intro t ht
  obtain ⟨_, us, vs, hts, _⟩ := mem_trace ht
  exact hfits _ (by rw [hts]; simp)

end Ledger

def StateBatchAppended.start (b : StateBatchAppended) : ℕ := b.header.prevTotalElements.toNat

def StateBatchAppended.stop (b : StateBatchAppended) : ℕ := b.start + b.header.batchSize.toNat

/-- The position of the batch of a transaction; it is behind the list if there is none. -/
def target (live : List StateBatchAppended) (i : ℕ) : ℕ := live.findIdx fun b => i < b.stop

/-- The batch indexes that the client looks up, with `n` live batches and the given target. -/
def consulted (n t : ℕ) : List ℕ :=
  if n = 0 then []
  else (n - 1) :: if t < n - 1 then Bisection.probes t (n - 1) 0 (n - 1) else []

variable {b : StateBatchAppended} {events : List StateBatchAppended}

section Positions

variable {i k : ℕ}

variable (h : Committed keccak s events live)
include h

theorem Committed.header (hb : live[k]? = some b) :
    b.header.batchIndex.toNat = k ∧ b.start = totalSize ((live.take k).map (·.header)) ∧
      0 < b.header.batchSize.toNat := by
  have hheader : (live.map (·.header))[k]? = some b.header := by rw [getElem?_map, hb]; rfl
  refine ⟨h.ledger.batchIndex k _ hheader, ?_, h.ledger.positive _ (mem_of_getElem? hheader)⟩
  rw [map_take]
  exact h.ledger.prevTotalElements k _ hheader

theorem Committed.stop_eq (hb : live[k]? = some b) :
    b.stop = totalSize ((live.take (k + 1)).map (·.header)) := by
  have htake : live.take (k + 1) = live.take k ++ [b] := by
    rw [take_add_one, hb]
    rfl
  rw [htake, map_append, totalSize_append, StateBatchAppended.stop, (h.header hb).2.1]
  simp [totalSize]

theorem Committed.stop_le_start {j : ℕ} {a : StateBatchAppended} (hjk : j < k)
    (ha : live[j]? = some a) (hb : live[k]? = some b) : a.stop ≤ b.start := by
  rw [h.stop_eq ha, (h.header hb).2.1]
  have hle := System.totalSize_take_le ((live.take k).map (·.header)) (j + 1)
  rwa [← map_take, take_take, min_eq_left hjk] at hle

theorem Committed.total_eq : s.scc.getTotalElements.toNat = totalSize (live.map (·.header)) := by
  rw [StateCommitmentChain.State.getTotalElements, toNat_setWidth, mod_eq_of_lt,
    h.ledger.totalElements]
  exact s.scc.extraData.totalElements.isLt.trans (by norm_num)

theorem Committed.stop_le_total (hb : live[k]? = some b) :
    b.stop ≤ s.scc.getTotalElements.toNat := by
  rw [h.total_eq, h.stop_eq hb, map_take]
  exact System.totalSize_take_le _ _

theorem Committed.total_lt : s.scc.getTotalElements.toNat < 2 ^ 40 := by
  rw [h.total_eq, ← h.ledger.totalElements]
  exact s.scc.extraData.totalElements.isLt

theorem Committed.last_stop (hb : live[live.length - 1]? = some b) :
    b.stop = s.scc.getTotalElements.toNat := by
  have hlt := (List.getElem?_eq_some_iff.mp hb).1
  rw [h.stop_eq hb, h.total_eq, take_of_length_le (by omega)]

omit h in
theorem stop_le_of_lt_target (hk : k < target live i) (hb : live[k]? = some b) : b.stop ≤ i := by
  have hlt := (List.getElem?_eq_some_iff.mp hb).1
  have hnot := not_of_lt_findIdx hk
  obtain ⟨_, rfl⟩ := List.getElem?_eq_some_iff.mp hb
  simpa using hnot

omit h in
theorem lt_stop_target (hb : live[target live i]? = some b) : i < b.stop := by
  obtain ⟨hlt, rfl⟩ := List.getElem?_eq_some_iff.mp hb
  exact of_decide_eq_true (findIdx_getElem (w := hlt))

theorem Committed.stop_le_iff (hb : live[k]? = some b) : b.stop ≤ i ↔ k < target live i := by
  constructor
  · intro hle
    by_contra hge
    rw [not_lt] at hge
    have hlt := (List.getElem?_eq_some_iff.mp hb).1
    obtain ⟨a, ht⟩ : ∃ a, live[target live i]? = some a :=
      ⟨_, List.getElem?_eq_getElem (hge.trans_lt hlt)⟩
    have hstop := lt_stop_target ht
    rcases hge.eq_or_lt with heq | hgt
    · rw [heq, hb] at ht
      rw [← Option.some.inj ht] at hstop
      omega
    · have hmono := h.stop_le_start hgt ht hb
      rw [StateBatchAppended.stop] at hle
      omega
  · intro hk
    exact stop_le_of_lt_target hk hb

theorem Committed.lt_start_iff (hb : live[k]? = some b) : i < b.start ↔ target live i < k := by
  have hk := (List.getElem?_eq_some_iff.mp hb).1
  constructor
  · intro hlt
    by_contra hge
    rw [not_lt] at hge
    cases k with
    | zero =>
      have hstart := (h.header hb).2.1
      simp only [take_zero, map_nil] at hstart
      rw [hstart] at hlt
      exact absurd hlt (not_lt_zero _)
    | succ k =>
      have ha : live[k]? = some _ := List.getElem?_eq_getElem (by omega)
      have hstop := stop_le_of_lt_target (i := i) hge ha
      rw [h.stop_eq ha, ← (h.header hb).2.1] at hstop
      omega
  · intro hlt
    have ht : live[target live i]? = some _ := List.getElem?_eq_getElem (hlt.trans hk)
    have hstop := lt_stop_target ht
    have hmono := h.stop_le_start hlt ht hb
    omega

theorem Committed.target_lt_iff :
    target live i < live.length ↔ i < s.scc.getTotalElements.toNat := by
  constructor
  · intro hlt
    have ht : live[target live i]? = some _ := List.getElem?_eq_getElem hlt
    exact (lt_stop_target ht).trans_le (h.stop_le_total ht)
  · intro hlt
    by_contra hge
    have hpos : 0 < live.length := by
      rw [length_pos_iff_ne_nil]
      rintro rfl
      rw [h.total_eq] at hlt
      exact absurd hlt (not_lt_zero _)
    have hlast : live[live.length - 1]? = some _ := List.getElem?_eq_getElem (by omega)
    have hstop := stop_le_of_lt_target (i := i) (by omega) hlast
    rw [h.last_stop hlast] at hstop
    omega

end Positions

section Search

variable {i k fuel : ℕ}

def AppendedOnce (events : List StateBatchAppended) (k : ℕ) : Prop :=
  (queryFilter events k).length = 1

instance (events : List StateBatchAppended) (k : ℕ) : Decidable (AppendedOnce events k) :=
  inferInstanceAs (Decidable (_ = _))

variable (h : Committed keccak s events live)
include h

theorem Committed.mem_queryFilter (hb : live[k]? = some b) : b ∈ queryFilter events k := by
  rw [queryFilter, mem_filter]
  exact ⟨(h.batches b (mem_of_getElem? hb)).1, by simpa using (h.header hb).1⟩

theorem Committed.lookup_eq (hb : live[k]? = some b) :
    getStateBatchAppendedEventByBatchIndex events k =
      if AppendedOnce events k then .ok (some b) else .error .moreThanOneEvent := by
  have hmem := h.mem_queryFilter hb
  unfold getStateBatchAppendedEventByBatchIndex
  split
  next hnil =>
    rw [hnil] at hmem
    cases hmem
  next event hone =>
    have honce : AppendedOnce events k := congrArg length hone
    rw [hone, mem_singleton] at hmem
    rw [if_pos honce, hmem]
  next hnil hone =>
    rw [if_neg]
    intro honce
    obtain ⟨event, hevent⟩ := length_eq_one_iff.mp honce
    exact hone event hevent

theorem Committed.isEventHi_eq (hb : live[k]? = some b) :
    isEventHi b i = .ok (decide (target live i < k)) := by
  have hstop := h.stop_le_total hb
  have htotal := h.total_lt
  have hsum : b.stop = b.header.prevTotalElements.toNat + b.header.batchSize.toNat := rfl
  rw [isEventHi, toNumber, safeNumber_of_lt (by omega), ok_bind,
    ← decide_eq_decide.mpr (h.lt_start_iff hb)]
  rfl

theorem Committed.isEventLo_eq (hb : live[k]? = some b) :
    isEventLo b i = .ok (decide (k < target live i)) := by
  have hstop := h.stop_le_total hb
  have htotal := h.total_lt
  have hsum : b.stop = b.header.prevTotalElements.toNat + b.header.batchSize.toNat := rfl
  rw [isEventLo, toNumber, safeNumber_of_lt (by omega), ok_bind, toNumber,
    safeNumber_of_lt (by omega), ok_bind,
    ← decide_eq_decide.mpr (h.stop_le_iff hb)]
  rfl

theorem Committed.probe_eq (hb : live[k]? = some b) :
    probe events i k = if AppendedOnce events k then .ok (sideOf (target live i) k, b)
      else .error .moreThanOneEvent := by
  rw [probe, h.lookup_eq hb]
  by_cases honce : AppendedOnce events k
  · rw [if_pos honce, if_pos honce, ok_bind]
    dsimp only
    rw [h.isEventHi_eq hb, ok_bind, h.isEventLo_eq hb, sideOf]
    by_cases hhigh : target live i < k
    · simp [hhigh, pure, Except.pure]
    · by_cases hlow : k < target live i
      · simp [hhigh, hlow, pure, Except.pure, bind, Except.bind]
      · simp [hhigh, hlow, pure, Except.pure, bind, Except.bind]
  · rw [if_neg honce, if_neg honce]
    rfl

theorem Committed.totalBatches_eq : s.scc.getTotalBatches.toNat = live.length := by
  rw [StateCommitmentChain.State.getTotalBatches, ChainStorageContainer.length_toNat,
    h.ledger.batches, length_map, length_map]

theorem Committed.totalBatches_lt : live.length < 2 ^ 40 := by
  have hlt := s.scc.batches.length_toList_lt
  rwa [h.ledger.batches, length_map, length_map] at hlt

theorem Committed.getState_eq (hb : live[live.length - 1]? = some b) :
    getStateBatchAppendedEventByTransactionIndex events s.scc.getTotalBatches fuel i =
      if AppendedOnce events (live.length - 1) then
        if live.length - 1 < target live i then some (.ok none)
        else if target live i < live.length - 1 then
          (search (probe events i) fuel 0 (live.length - 1) b).map fun result => result.map some
        else some (.ok (some b))
      else some (.error .moreThanOneEvent) := by
  have hpos := (List.getElem?_eq_some_iff.mp hb).1
  have htotal := h.totalBatches_eq
  have hbound := h.totalBatches_lt
  have hne : s.scc.getTotalBatches ≠ 0 := by
    intro hzero
    rw [hzero] at htotal
    have hnat : (0 : Uint256).toNat = 0 := rfl
    omega
  rw [getStateBatchAppendedEventByTransactionIndex, if_neg hne, toNumber,
    safeNumber_of_lt (by omega), htotal]
  dsimp only
  rw [h.lookup_eq hb]
  by_cases honce : AppendedOnce events (live.length - 1)
  · rw [if_pos honce, if_pos honce]
    dsimp only
    rw [h.isEventLo_eq hb, h.isEventHi_eq hb]
    by_cases hlow : live.length - 1 < target live i
    · simp [hlow]
    · by_cases hhigh : target live i < live.length - 1
      · simp [hlow, hhigh]
      · simp [hlow, hhigh]
  · rw [if_neg honce, if_neg honce]

omit h in
theorem between_target (hlt : target live i < live.length - 1) (hfuel : live.length - 1 ≤ fuel) :
    Between (target live i) fuel 0 (live.length - 1) :=
  ⟨zero_le _, hlt, by omega⟩

theorem Committed.probe_cases (hk : k < live.length) (b : StateBatchAppended) :
    (probe events i k = .error .moreThanOneEvent ∧ ¬ AppendedOnce events k) ∨
    (probe events i k = .ok (sideOf (target live i) k, live.getD k b) ∧
      AppendedOnce events k) := by
  have hget : live[k]? = some (live.getD k b) := by
    rw [getD_eq_getElem?_getD, List.getElem?_eq_getElem hk]
    rfl
  by_cases honce : AppendedOnce events k
  · exact .inr ⟨by rw [h.probe_eq hget, if_pos honce], honce⟩
  · exact .inl ⟨by rw [h.probe_eq hget, if_neg honce], honce⟩

omit h in
theorem probes_lt (t fuel lo hi : ℕ) : ∀ k ∈ probes t fuel lo hi, k < hi := by
  induction fuel generalizing lo hi with
  | zero => simp [probes]
  | succ fuel ih =>
    rw [probes]
    split
    next hlt =>
      rw [forall_mem_cons]
      refine ⟨by omega, ?_⟩
      split
      next =>
        intro k hk
        have := ih _ _ k hk
        omega
      next => exact ih _ _
      next => simp
    next => simp

theorem Committed.getState_of_once (hfuel : live.length ≤ fuel)
    (honce : ∀ k ∈ consulted live.length (target live i), AppendedOnce events k) :
    getStateBatchAppendedEventByTransactionIndex events s.scc.getTotalBatches fuel i =
      some (.ok live[target live i]?) := by
  by_cases hnil : live.length = 0
  · have hzero : s.scc.getTotalBatches = 0 := by
      apply eq_of_toNat_eq
      rw [h.totalBatches_eq, hnil]
      rfl
    rw [getStateBatchAppendedEventByTransactionIndex, if_pos hzero,
      List.getElem?_eq_none (by omega)]
  · obtain ⟨b, hb⟩ : ∃ b, live[live.length - 1]? = some b :=
      ⟨_, List.getElem?_eq_getElem (by omega)⟩
    rw [consulted, if_neg hnil, forall_mem_cons] at honce
    rw [h.getState_eq hb, if_pos honce.1]
    by_cases hlow : live.length - 1 < target live i
    · rw [if_pos hlow, List.getElem?_eq_none (by omega)]
    · rw [if_neg hlow]
      by_cases hhigh : target live i < live.length - 1
      · rw [if_pos hhigh] at honce ⊢
        have hbetween := between_target hhigh ((sub_le _ 1).trans hfuel)
        have hsearch : search (probe events i) fuel 0 (live.length - 1) b =
            some (.ok (live.getD (target live i) b)) := by
          apply search_eq (fun k => live.getD k b) hbetween
          intro k hk
          rw [probes_eq hbetween (between_target hhigh le_rfl)] at hk
          have hlt := probes_lt _ _ _ _ k hk
          rcases h.probe_cases (i := i) (k := k) (by omega) b with ⟨_, hnot⟩ | ⟨hprobe, _⟩
          · exact absurd (honce.2 k hk) hnot
          · exact hprobe
        rw [hsearch, getD_eq_getElem?_getD, List.getElem?_eq_getElem (by omega)]
        rfl
      · rw [if_neg hhigh, show target live i = live.length - 1 by omega, hb]

theorem Committed.once_of_getState (hfuel : live.length ≤ fuel) {result : Option StateBatchAppended}
    (hok : getStateBatchAppendedEventByTransactionIndex events s.scc.getTotalBatches fuel i = some
      (.ok result)) : ∀ k ∈ consulted live.length (target live i), AppendedOnce events k := by
  by_cases hnil : live.length = 0
  · simp [consulted, hnil]
  · obtain ⟨b, hb⟩ : ∃ b, live[live.length - 1]? = some b :=
      ⟨_, List.getElem?_eq_getElem (by omega)⟩
    rw [h.getState_eq hb] at hok
    rw [consulted, if_neg hnil, forall_mem_cons]
    by_cases honce : AppendedOnce events (live.length - 1)
    · refine ⟨honce, ?_⟩
      by_cases hhigh : target live i < live.length - 1
      · rw [if_pos honce, if_neg (by omega), if_pos hhigh, Option.map_eq_some_iff] at hok
        obtain ⟨found, hfound, hresult⟩ := hok
        rw [if_pos hhigh]
        cases found with
        | error => cases hresult
        | ok =>
          have hbetween := between_target hhigh ((sub_le _ 1).trans hfuel)
          have hcases : ∀ k < live.length - 1, (∃ e, probe events i k = .error e) ∨
              probe events i k = .ok (sideOf (target live i) k, live.getD k b) := by
            intro k hk
            rcases h.probe_cases (i := i) (k := k) (by omega) b with ⟨herror, _⟩ | ⟨hprobe, _⟩
            · exact .inl ⟨_, herror⟩
            · exact .inr hprobe
          intro k hk
          have hlt := probes_lt _ _ _ _ k hk
          rw [probes_eq (between_target hhigh le_rfl) hbetween] at hk
          have hanswered := probe_of_search_eq _ hbetween hcases hfound k hk
          rcases h.probe_cases (i := i) (k := k) (by omega) b with ⟨herror, _⟩ | ⟨_, honce⟩
          · rw [herror] at hanswered
            cases hanswered
          · exact honce
      · rw [if_neg hhigh]
        simp
    · rw [if_neg honce] at hok
      cases hok

end Search

section Proofs

variable {i k : ℕ}

variable (h : Committed keccak s events live)
include h

theorem Committed.length_committedRoots (k : ℕ) :
    (committedRoots (live.take k)).length = totalSize ((live.take k).map (·.header)) := by
  have hsizes : ∀ b ∈ live.take k, b.stateRoots.length = b.header.batchSize.toNat :=
    fun b hb => (h.batches b (mem_of_mem_take hb)).2.2
  rw [committedRoots, length_flatMap, totalSize, map_map]
  congr 1
  exact map_congr_left hsizes

theorem Committed.committedRoots_getElem (hb : live[k]? = some b) (hstart : b.start ≤ i)
    (hstop : i < b.stop) : (committedRoots live)[i]? = b.stateRoots[i - b.start]? := by
  obtain ⟨hk, hget⟩ := List.getElem?_eq_some_iff.mp hb
  have hsplit : live = live.take k ++ b :: live.drop (k + 1) := by
    rw [← hget, cons_getElem_drop_succ, take_append_drop]
  have hbefore := h.length_committedRoots k
  rw [← (h.header hb).2.1] at hbefore
  have hsize := (h.batches b (mem_of_getElem? hb)).2.2
  have hlt : i - b.start < b.stateRoots.length := by
    rw [StateBatchAppended.stop] at hstop
    omega
  have hroots : committedRoots live =
      committedRoots (live.take k) ++ (b.stateRoots ++ committedRoots (live.drop (k + 1))) := by
    conv_lhs => rw [hsplit]
    simp [committedRoots]
  rw [hroots, getElem?_append_right (by omega), hbefore, getElem?_append_left hlt]

theorem Committed.extractStateRoot_eq (hb : live[k]? = some b) (hstart : b.start ≤ i)
    (hstop : i < b.stop) :
    ∃ root, b.stateRoots[i - b.start]? = some root ∧
      extractStateRoot i b = .ok ⟨root, i - b.start, b⟩ := by
  have hsize := (h.batches b (mem_of_getElem? hb)).2.2
  have htotal := (h.stop_le_total hb).trans_lt h.total_lt
  have hlt : i - b.start < b.stateRoots.length := by
    rw [StateBatchAppended.stop] at hstop
    omega
  have hprev : b.header.prevTotalElements.toNat < 2 ^ 53 := by
    rw [StateBatchAppended.stop, StateBatchAppended.start] at htotal
    omega
  have hdef : b.start = b.header.prevTotalElements.toNat := rfl
  have hindex : ((i : ℤ) - (b.header.prevTotalElements.toNat : ℕ)).toNat = i - b.start := by omega
  refine ⟨_, List.getElem?_eq_getElem hlt, ?_⟩
  rw [extractStateRoot, toNumber, safeNumber_of_lt hprev, ok_bind]
  dsimp only
  rw [if_neg (by omega), if_neg (by omega), hindex, List.getElem?_eq_getElem hlt]

theorem Committed.verify_eq [DecidableEq H] {js : MerkleTreeJs} (hjs : js.Lawful)
    (window publish : Uint256) (hb : live[k]? = some b) {j : ℕ} {root : Bytes32}
    (hroot : b.stateRoots[j]? = some root) :
    verifyStateCommitment keccak (sccParameters window publish) s.scc root b.header
      (StateRoot.proof js ⟨root, j, b⟩) = .ok true := by
  have hmem := mem_of_getElem? hb
  obtain ⟨hj, rfl⟩ := List.getElem?_eq_some_iff.mp hroot
  have hsize := (h.batches b hmem).2.2
  have hfits : b.stateRoots.length < 2 ^ 256 := by
    rw [hsize]
    exact isLt _
  have hvalid : StateCommitmentChain.isValidBatchHeader keccak s.scc b.header = .ok true := by
    have hk := (List.getElem?_eq_some_iff.mp hb).1.trans h.totalBatches_lt
    rw [StateCommitmentChain.isValidBatchHeader_eq_true, (h.header hb).1, mod_eq_of_lt hk,
      h.ledger.batches, getElem?_map, getElem?_map, hb]
    rfl
  have hindex : (BitVec.ofNat 256 j).toNat = j := by
    rw [toNat_ofNat, mod_eq_of_lt (hj.trans hfits)]
  have htotal : LibMerkleTree.total b.stateRoots = b.header.batchSize := by
    apply eq_of_toNat_eq
    rw [LibMerkleTree.toNat_total hfits, hsize]
  have hincluded : LibMerkleTree.verify b.header.batchRoot b.stateRoots[j] (BitVec.ofNat 256 j)
      (makeMerkleTreeProof js b.stateRoots j) b.header.batchSize = .ok true := by
    have hlt : (BitVec.ofNat 256 j).toNat < b.stateRoots.length := by rwa [hindex]
    have hverify := LibMerkleTree.verify_treeSiblings hfits hlt
    rw [LibMerkleTree.eq_treeRoot_of_getMerkleRoot ((h.batches b hmem).2.1), ← htotal,
      makeMerkleTreeProof_eq hjs hj]
    simpa only [hindex] using hverify
  rw [verifyStateCommitment, StateCommitmentChain.verifyHeader, hvalid]
  simp only [StateRoot.proof, sccParameters, ok_bind, hincluded]
  rfl

end Proofs

section Resolution

variable [DecidableEq H]

structure Resolved (js : MerkleTreeJs) (keccak : Bytes → H) (params : Parameters) (s : System H)
    (events live : List StateBatchAppended) (fuel i : ℕ) (b : StateBatchAppended) : Prop where
  mem : b ∈ live
  start_le : b.start ≤ i
  lt_stop : i < b.stop
  stateRoot : ∃ root, (committedRoots live)[i]? = some root.stateRoot ∧
    getMessageStateRoot events s.scc.getTotalBatches fuel i = some (.ok (some root)) ∧
    verifyStateCommitment keccak params s.scc root.stateRoot root.batch.header
      (root.proof js) = .ok true

/-- The client returns, with any number of rounds from the number of batches on: nothing if and only
if the transaction has no state root, and otherwise its live batch. -/
def Resolves (js : MerkleTreeJs) (keccak : Bytes → H) (params : Parameters) (s : System H)
    (events live : List StateBatchAppended) (i : ℕ) : Prop :=
  ∃ result, ∀ fuel, live.length ≤ fuel →
    getStateBatchAppendedEventByTransactionIndex events s.scc.getTotalBatches fuel i =
      some (.ok result) ∧
    (result = none ↔ s.scc.getTotalElements.toNat ≤ i) ∧
    ∀ b, result = some b → Resolved js keccak params s events live fuel i b

theorem Committed.resolves_iff {js : MerkleTreeJs} (hjs : js.Lawful) {keccak : Bytes → H}
    {s : System H} {events live : List StateBatchAppended} (h : Committed keccak s events live)
    (window publish : Uint256) (i : ℕ) :
    Resolves js keccak (sccParameters window publish) s events live i ↔
      ∀ k ∈ consulted live.length (target live i), AppendedOnce events k := by
  constructor
  · rintro ⟨result, hresult⟩
    exact h.once_of_getState le_rfl (hresult live.length le_rfl).1
  · intro honce
    refine ⟨live[target live i]?, ?_⟩
    intro fuel hfuel
    have hstate := h.getState_of_once hfuel honce
    refine ⟨hstate, ?_, ?_⟩
    · rw [List.getElem?_eq_none_iff, ← not_lt, h.target_lt_iff, not_lt]
    · intro b hb
      have hstop := lt_stop_target hb
      have hstart : b.start ≤ i := by
        rw [← not_lt, h.lt_start_iff hb]
        exact lt_irrefl _
      obtain ⟨root, hroot, hextract⟩ := h.extractStateRoot_eq hb hstart hstop
      constructor
      case mem => exact mem_of_getElem? hb
      case start_le => exact hstart
      case lt_stop => exact hstop
      case stateRoot =>
        refine ⟨⟨root, i - b.start, b⟩, ?_, ?_, h.verify_eq hjs window publish hb hroot⟩
        · rw [h.committedRoots_getElem hb hstart hstop, hroot]
        · rw [getMessageStateRoot, hstate, hb, Option.map_some, ok_bind]
          dsimp only
          rw [hextract]
          rfl

/-- For every history and every transaction: the client resolves it to its live batch if and only if
each batch index that the client looks up was appended once. -/
theorem state_batch_resolves_iff (js : MerkleTreeJs) (hjs : js.Lawful) (keccak : Bytes → H)
    (d : Deployment) (window publish : Uint256) (hinj : HeaderHashInjective keccak) (zero : H)
    (maxGas divisor cost : Uint256) (txs : List (Message × SystemCall))
    (hfits : ∀ tx ∈ txs, RootsFit tx) (i : ℕ) :
    let params := sccParameters window publish
    let state := run (exec keccak d params) (init zero maxGas divisor cost) txs
    let log := trace (exec keccak d params) (init zero maxGas divisor cost) txs
    Resolves js keccak params state (appendEvents log) (liveBatches log) i ↔
      ∀ k ∈ consulted (liveBatches log).length (target (liveBatches log) i),
        AppendedOnce (appendEvents log) k :=
  (committed_run hinj zero maxGas divisor cost txs hfits).resolves_iff hjs window publish i

end Resolution

def sccExec : System Bytes → Message × SystemCall → Result (System Bytes × List SystemEvent) :=
  exec id System.oneDeployment (sccParameters 100 0)

def sccInit : System Bytes := init [] 1000000 1 1

def sccTxs : List (Message × SystemCall) := System.oneRun.take 3

variable (txs : List (Message × SystemCall))

def sccState : System Bytes := run sccExec sccInit txs

def sccLog : Log Bytes := trace sccExec sccInit txs

def pathProofs : MerkleTreeJs where
  getProof leaves :=
    MerkleTree.path hashPair (fun p => leaves.getD p 0) (Nat.clog 2 leaves.length) 0

theorem pathProofs_lawful : pathProofs.Lawful := by
  intro height leaves index hlength _
  dsimp only [pathProofs]
  rw [hlength, Nat.clog_pow 2 _ (by norm_num)]

theorem state_batch_resolves_sample :
    liveBatches (sccLog sccTxs) =
      [⟨⟨0, 7, 1, 0, words [20, 1]⟩, [7]⟩, ⟨⟨1, 8, 1, 1, words [30, 1]⟩, [8]⟩] ∧
    Resolves pathProofs id (sccParameters 100 0) (sccState sccTxs) (appendEvents (sccLog sccTxs))
      (liveBatches (sccLog sccTxs)) 0 := by
  have hfits : ∀ tx ∈ sccTxs, RootsFit tx := by
    simp [sccTxs, System.oneRun, RootsFit, batchOf]
  refine ⟨by decide +kernel, ?_⟩
  exact (state_batch_resolves_iff pathProofs pathProofs_lawful id System.oneDeployment 100 0
    (StateCommitmentChain.headerHashInjective_of_injective Function.injective_id) [] 1000000 1 1
    sccTxs hfits 0).mpr (by decide +kernel)

/-- The second batch is deleted and appended again. Both transactions have a live state root, but
the client throws for either. -/
theorem replaced_batch_throws :
    (sccState System.oneRun).scc.getTotalElements = 2 ∧
    ∀ i < 2, getStateBatchAppendedEventByTransactionIndex (appendEvents (sccLog System.oneRun))
      (sccState System.oneRun).scc.getTotalBatches 2 i =
        some (.error .moreThanOneEvent) := by
  decide +kernel

section Soundness

open Rollup.StateCommitmentChain (ChainInclusionProof SameContents)

/-- The header is that of a live batch, up to its index, of which the contract reads 40 bits. The
element is the state root at its place in the chain, unless two hashed pairs collide. -/
def Proven (live : List StateBatchAppended) (element : Bytes32) (header : ChainBatchHeader)
    (proof : ChainInclusionProof) : Prop :=
  ∃ b, live[header.batchIndex.toNat % 2 ^ 40]? = some b ∧ SameContents header b.header ∧
    proof.index.toNat < b.stateRoots.length ∧
    (LibMerkleTree.NoCollision b.stateRoots element proof.index.toNat proof.siblings →
      (committedRoots live)[b.start + proof.index.toNat]? = some element)

/-- For every history, a proof that the contract accepts is about a live batch and the state root
that was appended there. -/
theorem state_proofs_sound {H : Type} [DecidableEq H] (keccak : Bytes → H) (d : Deployment)
    (window publish : Uint256) (hinj : HeaderHashInjective keccak) (zero : H)
    (maxGas divisor cost : Uint256) (txs : List (Message × SystemCall))
    (hfits : ∀ tx ∈ txs, RootsFit tx) (element : Bytes32) (header : ChainBatchHeader)
    (proof : ChainInclusionProof) :
    let params := sccParameters window publish
    let start := init zero maxGas divisor cost
    verifyStateCommitment keccak params (run (exec keccak d params) start txs).scc element header
      proof = .ok true →
    Proven (liveBatches (trace (exec keccak d params) start txs)) element header proof := by
  intro params start hproof
  have h : Committed keccak (run (exec keccak d params) start txs) _ _ :=
    committed_run hinj zero maxGas divisor cost txs hfits
  simp only [verifyStateCommitment, StateCommitmentChain.verifyHeader, bind_eq_ok,
    require_eq_ok] at hproof
  obtain ⟨_, ⟨valid, hvalid, rfl⟩, included, hincluded, _, rfl, -⟩ := hproof
  rw [StateCommitmentChain.isValidBatchHeader_eq_true, h.ledger.batches, getElem?_map,
    getElem?_map, Option.map_map, Option.map_eq_some_iff] at hvalid
  obtain ⟨b, hb, hhash⟩ := hvalid
  have hsame := hinj _ _ hhash.symm
  have hsize := (h.batches b (mem_of_getElem? hb)).2.2
  -- The header holds the root and the size of the live batch, so that its proofs are sound.
  have htotal : header.batchSize = LibMerkleTree.total b.stateRoots := by
    rw [hsame, LibMerkleTree.total, hsize, BitVec.ofNat_toNat, setWidth_eq]
  have hroot : header.batchRoot = LibMerkleTree.treeRoot b.stateRoots := by
    rw [hsame, LibMerkleTree.eq_treeRoot_of_getMerkleRoot ((h.batches b (mem_of_getElem? hb)).2.1)]
  replace hincluded : LibMerkleTree.verify header.batchRoot element proof.index proof.siblings
    header.batchSize = .ok true := hincluded
  rw [hroot, htotal] at hincluded
  obtain ⟨hindex, hsound⟩ := LibMerkleTree.eq_of_verify (by rw [hsize]; exact isLt _) hincluded
  refine ⟨b, hb, hsame, hindex, fun hfree => ?_⟩
  have hstop : b.start + proof.index.toNat < b.stop := by
    rw [StateBatchAppended.stop, ← hsize]
    omega
  rw [h.committedRoots_getElem hb (Nat.le_add_right ..) hstop, Nat.add_sub_cancel_left,
    hsound hfree, LibMerkleTree.leafAt_of_lt hindex, List.getElem?_eq_getElem hindex]

def pairTxs : List (Message × SystemCall) :=
  System.oneRun.take 1 ++ [(System.oneMessage 20, .scc (.appendStateBatch [7, 8] 0))]

/-- The second root of a batch of two, with the first one as its sibling. -/
theorem state_proofs_sound_sample :
    Proven (liveBatches (sccLog pairTxs)) 8 ⟨0, hashPair 7 8, 2, 0, words [20, 1]⟩ ⟨1, [7]⟩ := by
  have hfits : ∀ tx ∈ pairTxs, RootsFit tx := by
    simp [pairTxs, System.oneRun, RootsFit, batchOf]
  exact state_proofs_sound id System.oneDeployment 100 0
    (StateCommitmentChain.headerHashInjective_of_injective Function.injective_id) [] 1000000 1 1
    pairTxs hfits 8 ⟨0, hashPair 7 8, 2, 0, words [20, 1]⟩ ⟨1, [7]⟩ (by decide +kernel)

end Soundness

end Sdk
