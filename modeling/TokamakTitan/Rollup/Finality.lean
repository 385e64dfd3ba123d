import TokamakTitan.Rollup.StateCommitmentChain

/-! State roots become final: along the live batches timestamps never decrease, so a batch whose
fraud proof window has passed cannot be removed, by its own header or an earlier one. -/
namespace Rollup.StateCommitmentChain
open Checked Abi Transactions List

section Finality

variable {H : Type} {keccak : Bytes → H} {d : Deployment} {params : Parameters}

def Tx.time (tx : Tx) : ℕ := tx.msg.timestamp.toNat

/-- The stored hashes are those of the headers `live`, in order of their timestamps. -/
structure Timed (keccak : Bytes → H) (s : State H) (now : ℕ) (live : List ChainBatchHeader) :
    Prop where
  batches : s.batches.toList = live.map (hashBatchHeader keccak)
  sorted : live.Pairwise fun h h' => stamp h ≤ stamp h'
  past : ∀ h ∈ live, stamp h ≤ now

theorem timed_init (zero : H) : Timed keccak (State.init zero) 0 [] := by
  refine ⟨?_, Pairwise.nil, by simp⟩
  exact Buffer.toList_empty _

variable {live : List ChainBatchHeader} {s : State H} {t : ℕ}

theorem Timed.mono {t' : ℕ} (h : Timed keccak s t live) (ht : t ≤ t') : Timed keccak s t' live :=
  ⟨h.batches, h.sorted, fun a ha => (h.past a ha).trans ht⟩

variable {s' : State H} {tx : Tx} {header : ChainBatchHeader}

theorem Appended.stamp_eq (h : Appended keccak s tx header s') : stamp header = tx.time := by
  have hwords : words [tx.msg.timestamp, tx.msg.sender.setWidth 256] =
      [] ++ (word tx.msg.timestamp ++ word (tx.msg.sender.setWidth 256)) := by
    simp only [words, flatMap_cons, flatMap_nil, append_nil, nil_append]
  have hload := calldataload_word [] tx.msg.timestamp (word (tx.msg.sender.setWidth 256))
  rw [length_nil] at hload
  rw [stamp, h.extraData, hwords, hload, Tx.time]

theorem Timed.stamp_le {i j : ℕ} {a b : ChainBatchHeader} (h : Timed keccak s t live) (hij : i ≤ j)
    (ha : live[i]? = some a) (hb : live[j]? = some b) : stamp a ≤ stamp b := by
  obtain ⟨hi, rfl⟩ := List.getElem?_eq_some_iff.mp ha
  obtain ⟨hj, rfl⟩ := List.getElem?_eq_some_iff.mp hb
  rcases hij.eq_or_lt with heq | hlt
  · subst heq
    exact le_rfl
  · exact pairwise_iff_getElem.mp h.sorted i j hi hj hlt

variable [DecidableEq H] {events : List Event}

theorem Timed.step (h : Timed keccak s t live) (ht : t ≤ tx.time)
    (hexec : exec keccak d params s tx = .ok (s', events)) :
    ∃ live', Timed keccak s' tx.time live' := by
  obtain ⟨header, -, happ⟩ | ⟨header, -, hdel⟩ := exec_eq_ok hexec
  · refine ⟨live ++ [header], ?_, ?_, ?_⟩
    · rw [happ.batches, h.batches, map_append]
      rfl
    · rw [pairwise_append]
      refine ⟨h.sorted, pairwise_singleton _ _, ?_⟩
      intro a ha b hb
      rw [mem_singleton.mp hb, happ.stamp_eq]
      exact (h.past a ha).trans ht
    · intro a ha
      rcases mem_append.mp ha with ha | ha
      · exact (h.past a ha).trans ht
      · rw [mem_singleton.mp ha, happ.stamp_eq]
  · refine ⟨live.take header.batchIndex.toNat, ?_, h.sorted.take, ?_⟩
    · rw [hdel.batches, h.batches, map_take]
    · intro a ha
      exact (h.past a (mem_of_mem_take ha)).trans ht

theorem timed_run {now : ℕ} {txs : List Tx} (h : Timed keccak s t live)
    (htimes : (t :: (txs.map Tx.time ++ [now])).Pairwise (· ≤ ·)) :
    ∃ live', Timed keccak (run (exec keccak d params) s txs) now live' := by
  induction txs generalizing s t live with
  | nil =>
    have ht : t ≤ now := by simpa using htimes
    exact ⟨live, h.mono ht⟩
  | cons tx txs ih =>
    rw [map_cons, cons_append, pairwise_cons] at htimes
    obtain ⟨hfirst, hrest⟩ := htimes
    have ht : t ≤ tx.time := hfirst _ (mem_cons_self ..)
    cases hexec : exec keccak d params s tx with
    | error =>
      have hsame := (step_error hexec).1
      obtain ⟨live', h'⟩ := ih (h.mono ht) hrest
      exact ⟨live', by rw [run, foldl_cons, hsame]; exact h'⟩
    | ok =>
      have hnext := (step_ok hexec).1
      obtain ⟨live₁, h₁⟩ := h.step ht hexec
      obtain ⟨live', h'⟩ := ih h₁ hrest
      exact ⟨live', by rw [run, foldl_cons, hnext]; exact h'⟩

omit [DecidableEq H] in
theorem stamp_congr {h h' : ChainBatchHeader} (hsame : SameContents h h') : stamp h = stamp h' := by
  rw [hsame]
  rfl

theorem final_step (hinj : HeaderHashInjective keccak) {i : ℕ} (h : Timed keccak s t live)
    (ht : t ≤ tx.time) (hlive : s.batches.toList[i]? = some (hashBatchHeader keccak header))
    (hfinal : stamp header + params.FRAUD_PROOF_WINDOW.toNat ≤ t)
    (hexec : exec keccak d params s tx = .ok (s', events)) :
    s'.batches.toList[i]? = some (hashBatchHeader keccak header) := by
  have hi := (List.getElem?_eq_some_iff.mp hlive).1
  obtain ⟨new, -, happ⟩ | ⟨target, -, hdel⟩ := exec_eq_ok hexec
  · rw [happ.batches, getElem?_append_left hi]
    exact hlive
  · rw [hdel.batches]
    have hlater : i < target.batchIndex.toNat := by
      by_contra hle
      -- The deleted header is that of a live batch before `i`, with an earlier timestamp.
      have hvalid := hdel.valid
      rw [h.batches, getElem?_map, Option.map_eq_some_iff] at hvalid hlive
      obtain ⟨a, ha, hatarget⟩ := hvalid
      obtain ⟨b, hb, hbheader⟩ := hlive
      have hsa := stamp_congr (hinj _ _ hatarget)
      have hsb := stamp_congr (hinj _ _ hbheader)
      have hab := h.stamp_le (by omega) ha hb
      have hinside := hdel.inside
      rw [Tx.time] at ht
      omega
    rw [getElem?_take_of_lt hlater]
    exact hlive

theorem final_run (hinj : HeaderHashInjective keccak) {i : ℕ} {txs : List Tx}
    (h : Timed keccak s t live)
    (hlive : s.batches.toList[i]? = some (hashBatchHeader keccak header))
    (hfinal : stamp header + params.FRAUD_PROOF_WINDOW.toNat ≤ t)
    (htimes : (t :: txs.map Tx.time).Pairwise (· ≤ ·)) :
    (run (exec keccak d params) s txs).batches.toList[i]? =
      some (hashBatchHeader keccak header) := by
  induction txs generalizing s t live with
  | nil => exact hlive
  | cons tx txs ih =>
    rw [map_cons, pairwise_cons] at htimes
    obtain ⟨hfirst, hrest⟩ := htimes
    have ht : t ≤ tx.time := hfirst _ (mem_cons_self ..)
    rw [run, foldl_cons]
    cases hexec : exec keccak d params s tx with
    | error =>
      rw [(step_error hexec).1]
      exact ih (h.mono ht) hlive (hfinal.trans ht) hrest
    | ok =>
      rw [(step_ok hexec).1]
      obtain ⟨live₁, h₁⟩ := h.step ht hexec
      exact ih h₁ (final_step hinj h ht hlive hfinal hexec) (hfinal.trans ht) hrest

/-- A live state batch outside of its fraud proof window stays at its index with its header hash,
whatever is appended and deleted later. -/
theorem finalized_state_batch_survives (keccak : Bytes → H) (d : Deployment)
    (params : Parameters) (hinj : HeaderHashInjective keccak) (zero : H) (before after : List Tx)
    (now : Uint256)
    (htimes : (before.map Tx.time ++ now.toNat :: after.map Tx.time).Pairwise (· ≤ ·))
    (i : ℕ) (header : ChainBatchHeader)
    (hlive : (run (exec keccak d params) (State.init zero) before).batches.toList[i]? =
      some (hashBatchHeader keccak header))
    (hout : insideFraudProofWindow params now header = .ok false) :
    (run (exec keccak d params) (State.init zero) (before ++ after)).batches.toList[i]? =
      some (hashBatchHeader keccak header) := by
  obtain ⟨hbefore, hafter, hbetween⟩ := List.pairwise_append.mp htimes
  have hstart : (0 :: (before.map Tx.time ++ [now.toNat])).Pairwise (· ≤ ·) := by
    rw [List.pairwise_cons, List.pairwise_append]
    refine ⟨fun _ _ => Nat.zero_le _, hbefore, List.pairwise_singleton _ _, ?_⟩
    intro a ha b hb
    rw [List.mem_singleton.mp hb]
    exact hbetween a ha _ (List.mem_cons_self ..)
  obtain ⟨live, htimed⟩ := timed_run (timed_init zero) hstart
  have hfinal : stamp header + params.FRAUD_PROOF_WINDOW.toNat ≤ now.toNat := by
    have hdecide := insideFraudProofWindow_eq_ok hout
    simpa using hdecide
  rw [run_append]
  exact final_run hinj htimed hlive hfinal hafter

end Finality

def fraudDeployment : Deployment :=
  ⟨fun name => if name = "OVM_Proposer" then 1 else if name = "OVM_FraudVerifier" then 2 else 3,
    0, 4, 3⟩

def fraudParams : Parameters :=
  ⟨10, 0, fun batch => .ok (batch.headD 0), fun _ _ _ _ _ => .ok true⟩

def fraudTx (sender timestamp : ℕ) (call : Call) : Tx :=
  ⟨⟨BitVec.ofNat 160 sender, BitVec.ofNat 160 sender, BitVec.ofNat 256 timestamp, 1, fun _ => 0, 0⟩,
    5, call⟩

def fraudHeader : ChainBatchHeader := ⟨0, 7, 1, 0, words [100, 1]⟩

theorem finalized_state_batch_survives_late :
    (run (exec id fraudDeployment fraudParams) (State.init ([] : Bytes))
      ([fraudTx 1 100 (.appendStateBatch [7] 0)] ++
        [fraudTx 2 120 (.deleteStateBatch fraudHeader)])).batches.toList[0]? =
      some (hashBatchHeader id fraudHeader) :=
  finalized_state_batch_survives id fraudDeployment fraudParams
    (headerHashInjective_of_injective Function.injective_id) [] _ _ 110 (by decide) 0
    fraudHeader (by decide +kernel) (by decide +kernel)

end Rollup.StateCommitmentChain
