import TokamakTitan.Library.Bisection
import TokamakTitan.Rollup.Bookkeeping
import TokamakTitan.Rollup.Finality

/-! Where the fault detector starts (`fault-detector/src/helpers.ts`): a binary search among the
events of the state commitment chain for the first batch inside the fraud proof window. -/
namespace FaultDetector
open Checked Abi Rollup Rollup.StateCommitmentChain Transactions List

inductive Error where
  | unsafeNumber
  | noEvent
  | tooManyEvents
  deriving DecidableEq

/-- An event of the contract, with the timestamp of its block. -/
structure StateBatchAppended where
  header : ChainBatchHeader
  timestamp : ℕ
  deriving DecidableEq

section Search

variable (events : List StateBatchAppended)

def findEventForStateBatch (index : ℕ) : Except Error StateBatchAppended :=
  match events.filter (·.header.batchIndex.toNat = index) with
  | [] => .error .noEvent
  | [event] => .ok event
  | _ => .error .tooManyEvents

def toNumber (x : Uint256) : Except Error ℕ := safeNumber .unsafeNumber x.toNat

/-- The test of the loop: whether the batch in the middle has passed the window. -/
def passed (fpw latest mid : ℕ) : Except Error Bool := do
  let event ← findEventForStateBatch events mid
  return decide (event.timestamp + fpw < latest)

/-- The search with at most `fuel` rounds. -/
def findFirstUnfinalizedStateBatchIndex (window totalBatches : Uint256) (latest fuel : ℕ) :
    Option (Except Error (Option ℕ)) :=
  match toNumber window with
  | .error e => some (.error e)
  | .ok fpw =>
    match toNumber totalBatches with
    | .error e => some (.error e)
    | .ok total =>
      (Bisection.lowerBound (passed events fpw latest) fuel 0 total).map fun result =>
        result.map fun lo => if lo = total then none else some lo

end Search

abbrev Log (H : Type) := List (Transition (State H) Tx Event)

variable {H : Type}

def appendedBy (time : ℕ) : Event → Option StateBatchAppended
  | .stateBatchAppended header => some ⟨header, time⟩
  | .stateBatchDeleted _ _ => none

def appendEvents (log : Log H) : List StateBatchAppended :=
  log.flatMap fun t => t.events.filterMap (appendedBy t.tx.time)

def applyEvent (time : ℕ) (live : List StateBatchAppended) : Event → List StateBatchAppended
  | .stateBatchAppended header => live ++ [⟨header, time⟩]
  | .stateBatchDeleted batchIndex _ => live.take batchIndex.toNat

def liveBatches (log : Log H) : List StateBatchAppended :=
  log.foldl (fun live t => t.events.foldl (applyEvent t.tx.time) live) []

/-- The live batches as the contract counts them, and the log that they come from. -/
structure Tracked (s : State H) (log : Log H) (live : List StateBatchAppended) : Prop where
  length : s.batches.toList.length = live.length
  batchIndex : ∀ (k : ℕ) b, live[k]? = some b → b.header.batchIndex.toNat = k
  appended : ∀ b ∈ live, b ∈ appendEvents log
  timestamps : (live.map (·.timestamp)).Sublist ((log.map (·.tx)).map Tx.time)
  extraData : ∀ b ∈ live, ∃ timestamp sender, timestamp.toNat = b.timestamp ∧
    b.header.extraData = words [timestamp, BitVec.setWidth 256 (sender : Address)]

section Run

variable [DecidableEq H] {keccak : Bytes → H} {d : Deployment} {params : Parameters}
  {s s' : State H} {log : Log H} {live : List StateBatchAppended} {tx : Tx} {events : List Event}

theorem Tracked.step (h : Tracked s log live)
    (hexec : exec keccak d params s tx = .ok (s', events)) :
    Tracked s' (log ++ [⟨s, tx, s', events⟩]) (events.foldl (applyEvent tx.time) live) := by
  have hevents : appendEvents (log ++ [⟨s, tx, s', events⟩]) =
      appendEvents log ++ events.filterMap (appendedBy tx.time) := by simp [appendEvents]
  obtain ⟨header, rfl, happ⟩ | ⟨header, rfl, hdel⟩ := exec_eq_ok hexec
  · simp only [foldl_cons, foldl_nil, applyEvent]
    constructor
    case length => simp [happ.batches, h.length]
    case batchIndex =>
      intro k b hb
      rcases Nat.lt_or_ge k live.length with hlt | hge
      · exact h.batchIndex k b (by rwa [getElem?_append_left hlt] at hb)
      · obtain ⟨rfl, rfl⟩ := System.getElem?_concat_of_ge hge hb
        rw [← h.length]
        exact happ.batchIndex
    case appended =>
      rw [hevents, forall_mem_append, forall_mem_singleton]
      exact ⟨fun b hb => mem_append_left _ (h.appended b hb), by simp [appendedBy]⟩
    case timestamps =>
      rw [map_append, map_append, map_append]
      exact h.timestamps.append (Sublist.refl _)
    case extraData =>
      rw [forall_mem_append, forall_mem_singleton]
      exact ⟨h.extraData, _, _, rfl, happ.extraData⟩
  · simp only [foldl_cons, foldl_nil, applyEvent]
    constructor
    case length => simp [hdel.batches, h.length]
    case batchIndex => exact fun k b hb => h.batchIndex k b (System.getElem?_take_eq_some hb).2
    case appended =>
      rw [hevents]
      exact fun b hb => mem_append_left _ (h.appended b (mem_of_mem_take hb))
    case timestamps =>
      rw [map_append, map_append]
      exact (((take_sublist _ _).map _).trans h.timestamps).trans (sublist_append_left _ _)
    case extraData => exact fun b hb => h.extraData b (mem_of_mem_take hb)

variable (keccak d params) in
theorem tracked_run (zero : H) (txs : List Tx) :
    Tracked (run (exec keccak d params) (State.init zero) txs)
      (trace (exec keccak d params) (State.init zero) txs)
      (liveBatches (trace (exec keccak d params) (State.init zero) txs)) := by
  apply run_invariant (P := fun s log => Tracked s log (liveBatches log))
  · refine ⟨?_, by simp [liveBatches], by simp [liveBatches], Sublist.refl _, by simp [liveBatches]⟩
    rw [State.init, ChainStorageContainer.toList, Buffer.toList_empty]
    rfl
  · intro s s' log tx events h hexec
    rw [liveBatches, foldl_append]
    exact h.step hexec

omit [DecidableEq H] in
/-- The event of a live index is found if the index was appended just once, and else there are too
many. -/
theorem Tracked.findEvent (h : Tracked s log live) {k : ℕ} {b : StateBatchAppended}
    (hb : live[k]? = some b) :
    findEventForStateBatch (appendEvents log) k =
      if (appendEvents log).countP (·.header.batchIndex.toNat = k) = 1 then .ok b
      else .error .tooManyEvents := by
  have hmem : b ∈ (appendEvents log).filter (·.header.batchIndex.toNat = k) :=
    mem_filter.mpr ⟨h.appended b (mem_of_getElem? hb), decide_eq_true (h.batchIndex k b hb)⟩
  rw [findEventForStateBatch, countP_eq_length_filter]
  split
  next hnone =>
    rw [hnone] at hmem
    cases hmem
  next event hone =>
    rw [hone, mem_singleton] at hmem
    rw [hone, if_pos (length_singleton), hmem]
  next hnone hone =>
    rw [if_neg]
    intro hlength
    obtain ⟨event, hevent⟩ := length_eq_one_iff.mp hlength
    exact hone event hevent

end Run

theorem insideFraudProofWindow_words {params : Parameters} {now timestamp : Uint256}
    {sender : Address} {header : ChainBatchHeader}
    (hextra : header.extraData = words [timestamp, sender.setWidth 256])
    (hpos : timestamp.toNat ≠ 0)
    (hfits : timestamp.toNat + params.FRAUD_PROOF_WINDOW.toNat < 2 ^ 256) :
    insideFraudProofWindow params now header =
      .ok (decide (now.toNat < timestamp.toNat + params.FRAUD_PROOF_WINDOW.toNat)) := by
  have htime := calldataload_word [] timestamp (word (sender.setWidth 256) ++ [])
  have hpublisher := calldataload_word (word timestamp) (sender.setWidth 256) []
  rw [length_nil, nil_append] at htime
  rw [length_word] at hpublisher
  have hwords : header.extraData = word timestamp ++ (word (sender.setWidth 256) ++ []) := by
    rw [hextra, words, flatMap_cons, flatMap_cons, flatMap_nil]
  have hsender : (sender.setWidth 256).toNat = sender.toNat :=
    BitVec.toNat_setWidth_of_le (by norm_num)
  have hdecode : decodeExtraData header.extraData = .ok (timestamp, sender) := by
    rw [decodeExtraData, hwords, hpublisher, htime, if_pos, BitVec.setWidth_setWidth_of_le]
    · simp
    · norm_num
    · exact ⟨by simp, hsender ▸ sender.isLt⟩
  simp only [insideFraudProofWindow, hdecode, ok_bind]
  rw [require, if_pos hpos, ok_bind, add, if_pos hfits, ok_bind, BitVec.toNat_add_of_lt hfits]
  rfl

section Window

variable (live : List StateBatchAppended) (window now : ℕ)

/-- The first live batch that the search takes for unfinalized. -/
def firstKept : ℕ := live.findIdx fun b => now ≤ b.timestamp + window

/-- The batch indexes that the search looks at. -/
def probed (fuel : ℕ) : List ℕ :=
  Bisection.lowerBoundProbes (firstKept live window now) fuel 0 live.length

variable {live window now}

theorem findIdx?_congr {p q : StateBatchAppended → Bool} (h : ∀ b ∈ live, p b = q b) :
    live.findIdx? p = live.findIdx? q := by
  induction live with
  | nil => rfl
  | cons b live ih =>
    have hlive := ih fun other hother => h other (mem_cons_of_mem _ hother)
    rw [findIdx?_cons, findIdx?_cons, h b mem_cons_self, hlive]

variable (hsorted : (live.map (·.timestamp)).Pairwise (· ≤ ·))
include hsorted

theorem passed_iff {k : ℕ} (hk : k < live.length) :
    live[k].timestamp + window < now ↔ k < firstKept live window now := by
  constructor
  · intro hout
    by_contra hge
    -- a later batch is not older
    have hlt : firstKept live window now < live.length := by omega
    have hfirst : now ≤ live[firstKept live window now].timestamp + window :=
      of_decide_eq_true (findIdx_getElem (w := hlt))
    have hle : live[firstKept live window now].timestamp ≤ live[k].timestamp := by
      rcases (Nat.le_of_not_lt hge).eq_or_lt with heq | hlt
      · simp only [heq, le_refl]
      · exact pairwise_iff_getElem.mp (pairwise_map.mp hsorted) _ _ _ hk hlt
    omega
  · intro hlt
    have hnot := not_of_lt_findIdx hlt
    rw [decide_eq_false_iff_not] at hnot
    omega

/-- The window of the search and that of the contract begin at the same batch unless a batch reaches
the end of its window. -/
theorem findIdx?_window_iff :
    (live.findIdx? fun b => now ≤ b.timestamp + window) =
        (live.findIdx? fun b => now < b.timestamp + window) ↔
      ∀ b ∈ live, b.timestamp + window ≠ now := by
  constructor
  · intro heq b hb hend
    obtain ⟨j, hj, rfl⟩ := getElem_of_mem hb
    have hsome : (live.findIdx? fun b => now ≤ b.timestamp + window).isSome :=
      findIdx?_isSome.trans (any_eq_true.mpr ⟨_, hb, decide_eq_true hend.ge⟩)
    obtain ⟨i, hi⟩ := Option.isSome_iff_exists.mp hsome
    obtain ⟨hlt, -, hbefore⟩ := findIdx?_eq_some_iff_getElem.mp hi
    obtain ⟨hlast, hinside, -⟩ := findIdx?_eq_some_iff_getElem.mp (heq ▸ hi)
    -- the first batch that the search keeps is no later than the one whose window ends
    have hle : i ≤ j := by
      by_contra hgt
      exact hbefore j (by omega) (decide_eq_true hend.ge)
    have htime : live[i].timestamp ≤ live[j].timestamp := by
      rcases hle.eq_or_lt with rfl | hlt
      · exact le_rfl
      · exact pairwise_iff_getElem.mp (pairwise_map.mp hsorted) _ _ _ hj hlt
    have := of_decide_eq_true hinside
    omega
  · intro hne
    apply findIdx?_congr
    intro b hb
    have := hne b hb
    rw [decide_eq_decide]
    omega

theorem Tracked.lowerBound_iff {s : State H} {log : Log H} (h : Tracked s log live) {fuel x : ℕ}
    (hfuel : live.length ≤ fuel) :
    Bisection.lowerBound (passed (appendEvents log) window now) fuel 0 live.length =
        some (.ok x) ↔
      x = firstKept live window now ∧ ∀ k ∈ probed live window now fuel,
        (appendEvents log).countP (·.header.batchIndex.toNat = k) = 1 := by
  have hpassed : ∀ k < live.length, passed (appendEvents log) window now k =
      if (appendEvents log).countP (·.header.batchIndex.toNat = k) = 1 then
        .ok (decide (k < firstKept live window now))
      else .error .tooManyEvents := by
    intro k hk
    rw [passed, h.findEvent (getElem?_eq_getElem hk),
      ← decide_eq_decide.mpr (passed_iff hsorted hk)]
    split <;> rfl
  rw [Bisection.lowerBound_eq_iff (Nat.zero_le _) findIdx_le_length hfuel]
  · refine and_congr_right fun _ => forall₂_congr fun k hk => ?_
    rw [hpassed k (Bisection.lt_of_mem_lowerBoundProbes (Nat.zero_le _) hk)]
    split
    next hone => exact iff_of_true rfl hone
    next hmany => exact iff_of_false (by rintro ⟨⟩) hmany
  · intro k hk
    rw [hpassed k hk]
    split
    · exact .inr rfl
    · exact .inl ⟨_, rfl⟩

theorem Tracked.search_iff {s : State H} {log : Log H} (h : Tracked s log live) {size : Uint256}
    (hsize : size.toNat = window) {fuel : ℕ} (hfuel : s.getTotalBatches.toNat ≤ fuel)
    {result : Option ℕ} :
    findFirstUnfinalizedStateBatchIndex (appendEvents log) size s.getTotalBatches now fuel =
        some (.ok result) ↔
      window < 2 ^ 53 ∧
        (∀ k ∈ probed live window now fuel,
          (appendEvents log).countP (·.header.batchIndex.toNat = k) = 1) ∧
        (live.findIdx? fun b => now ≤ b.timestamp + window) = result := by
  have htotal : s.getTotalBatches.toNat = live.length := by
    rw [State.getTotalBatches, ChainStorageContainer.length_toNat, h.length]
  have hsmall : live.length < 2 ^ 53 := by
    rw [← h.length]
    exact s.batches.length_toList_lt.trans (by norm_num)
  have hindex : (live.findIdx? fun b => now ≤ b.timestamp + window) =
      if firstKept live window now = live.length then none
      else some (firstKept live window now) := by
    have hle : firstKept live window now ≤ live.length := findIdx_le_length
    rw [findIdx?_eq_guard_findIdx_lt]
    by_cases hend : firstKept live window now = live.length
    · rw [if_pos hend]
      exact Option.guard_eq_none_iff.mpr (decide_eq_false hend.not_lt)
    · rw [if_neg hend]
      exact Option.guard_eq_some_iff.mpr ⟨rfl, decide_eq_true (lt_of_le_of_ne hle hend)⟩
  unfold findFirstUnfinalizedStateBatchIndex
  rw [toNumber, toNumber, hsize, htotal, safeNumber_of_lt hsmall, hindex]
  by_cases hwindow : window < 2 ^ 53
  · have hmap {o : Option (Except Error ℕ)} {f : ℕ → Option ℕ} :
        o.map (fun found => found.map f) = some (.ok result) ↔
          ∃ x, o = some (.ok x) ∧ f x = result := by
      rcases o with _ | e | x
      · simp
      · simp [Except.map]
      · simp [Except.map]
    rw [safeNumber_of_lt hwindow, and_iff_right hwindow]
    dsimp only
    simp only [hmap, h.lowerBound_iff hsorted (htotal ▸ hfuel)]
    constructor
    · rintro ⟨x, ⟨rfl, honce⟩, hresult⟩
      exact ⟨honce, hresult⟩
    · rintro ⟨honce, hresult⟩
      exact ⟨_, ⟨rfl, honce⟩, hresult⟩
  · have herror : safeNumber Error.unsafeNumber window = .error .unsafeNumber := if_neg hwindow
    rw [herror]
    exact iff_of_false (by rintro ⟨⟩) fun hall => hwindow hall.1

end Window

/-- Over any run of the contract, the search ends with the first live batch that the contract finds
inside the window exactly when the window is a safe number, every index that it looks at was
appended just once, and no live batch reaches the end of its window at the very time. -/
theorem findFirstUnfinalized_first_iff [DecidableEq H] (keccak : Bytes → H) (d : Deployment)
    (params : Parameters) (zero : H) (txs : List Tx) (now : Uint256) (fuel : ℕ)
    (htimes : (txs.map Tx.time ++ [now.toNat]).Pairwise (· ≤ ·)) (hpos : ∀ tx ∈ txs, tx.time ≠ 0)
    (hnow : now.toNat < 2 ^ 64) :
    let s := run (exec keccak d params) (State.init zero) txs
    let log := trace (exec keccak d params) (State.init zero) txs
    let live := liveBatches log
    let window := params.FRAUD_PROOF_WINDOW.toNat
    s.getTotalBatches.toNat ≤ fuel →
    (findFirstUnfinalizedStateBatchIndex (appendEvents log) params.FRAUD_PROOF_WINDOW
        s.getTotalBatches now.toNat fuel =
      some (.ok (live.findIdx? fun b => insideFraudProofWindow params now b.header = .ok true)) ↔
    window < 2 ^ 53 ∧
      (∀ k ∈ probed live window now.toNat fuel,
        (appendEvents log).countP (·.header.batchIndex.toNat = k) = 1) ∧
      ∀ b ∈ live, b.timestamp + window ≠ now.toNat) := by
  intro s log live window hfuel
  have h : Tracked s log live := tracked_run keccak d params zero txs
  obtain ⟨hsorted, -, hpast⟩ := pairwise_append.mp htimes
  have htxs := h.timestamps.trans ((sublist_trace _ _).map _)
  have hsortedLive : (live.map (·.timestamp)).Pairwise (· ≤ ·) := hsorted.sublist htxs
  rw [h.search_iff hsortedLive rfl hfuel, ← findIdx?_window_iff hsortedLive]
  refine and_congr_right fun hwindow => ?_
  have hinside : (live.findIdx? fun b => insideFraudProofWindow params now b.header = .ok true) =
      live.findIdx? fun b => now.toNat < b.timestamp + window := by
    apply findIdx?_congr
    intro b hb
    obtain ⟨timestamp, sender, htime, hextra⟩ := h.extraData b hb
    have hmem : b.timestamp ∈ txs.map Tx.time := htxs.subset (mem_map_of_mem hb)
    have hle := hpast _ hmem _ (mem_singleton_self _)
    obtain ⟨tx, htx, heq⟩ := mem_map.mp hmem
    have hzero := hpos tx htx
    rw [insideFraudProofWindow_words hextra (by omega) (by omega), htime]
    simp only [Except.ok.injEq, decide_eq_true_eq]
    rfl
  rw [hinside]

def sccLog (txs : List Tx) : Log Bytes :=
  trace (exec id fraudDeployment fraudParams) (State.init []) txs

def reappendedTxs : List Tx :=
  [fraudTx 1 100 (.appendStateBatch [7] 0), fraudTx 2 101 (.deleteStateBatch fraudHeader),
    fraudTx 1 102 (.appendStateBatch [9] 0), fraudTx 1 103 (.appendStateBatch [9] 1),
    fraudTx 1 108 (.appendStateBatch [9] 2)]

/-- Index 0 was appended twice, and the search does not look at it. -/
theorem findFirstUnfinalized_reappended :
    (appendEvents (sccLog reappendedTxs)).map (·.header.batchIndex) = [0, 0, 1, 2] ∧
    probed (liveBatches (sccLog reappendedTxs)) 10 115 3 = [1, 2] ∧
    findFirstUnfinalizedStateBatchIndex (appendEvents (sccLog reappendedTxs))
        fraudParams.FRAUD_PROOF_WINDOW
        (run (exec id fraudDeployment fraudParams) (State.init ([] : Bytes))
          reappendedTxs).getTotalBatches (115 : Uint256).toNat 3 =
      some (.ok (some 2)) := by
  refine ⟨by decide +kernel, by decide +kernel, ?_⟩
  have hinside : (liveBatches (sccLog reappendedTxs)).findIdx? (fun b =>
      insideFraudProofWindow fraudParams 115 b.header = .ok true) = some 2 := by
    decide +kernel
  rw [← hinside]
  exact (findFirstUnfinalized_first_iff id fraudDeployment fraudParams [] reappendedTxs
    115 3 (by decide +kernel) (by decide +kernel) (by decide) (by decide +kernel)).mpr
    (by decide +kernel)

/-- The search throws once an index was appended again, and a batch whose window ends now counts as
unfinalized although the contract has it outside. -/
theorem findFirstUnfinalized_differs :
    let reappended := sccLog [fraudTx 1 100 (.appendStateBatch [7] 0),
      fraudTx 2 105 (.deleteStateBatch fraudHeader), fraudTx 1 106 (.appendStateBatch [9] 0)]
    let ending := sccLog [fraudTx 1 100 (.appendStateBatch [7] 0)]
    (findFirstUnfinalizedStateBatchIndex (appendEvents reappended) 10 1 107 1 =
        some (.error .tooManyEvents) ∧
      (liveBatches reappended).findIdx? (fun b =>
        insideFraudProofWindow fraudParams 107 b.header = .ok true) = some 0) ∧
    findFirstUnfinalizedStateBatchIndex (appendEvents ending) 10 1 110 1 = some (.ok (some 0)) ∧
      (liveBatches ending).findIdx? (fun b =>
        insideFraudProofWindow fraudParams 110 b.header = .ok true) = none := by
  decide +kernel

end FaultDetector
