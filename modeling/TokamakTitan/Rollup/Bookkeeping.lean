import TokamakTitan.Rollup.StateCommitmentChain

/-! The two chain contracts together. The state commitment chain refines a ledger of live headers:
appending extends it, deleting cuts it. -/
namespace Rollup
open Checked Abi Transactions List Nat

structure System (H : Type) where
  ctc : CanonicalTransactionChain.State H
  scc : StateCommitmentChain.State H

inductive SystemCall where
  | ctc (call : CanonicalTransactionChain.Call)
  | scc (call : StateCommitmentChain.Call)

inductive SystemEvent where
  | ctc (event : CanonicalTransactionChain.Event)
  | scc (event : StateCommitmentChain.Event)

namespace System

open StateCommitmentChain (Parameters SameContents HeaderHashInjective)

section Model

variable {H : Type} [DecidableEq H] (keccak : Bytes → H) (d : Deployment) (params : Parameters)

/-- The state commitment chain asks the canonical transaction chain for its total. -/
def exec (s : System H) (tx : Message × SystemCall) : Result (System H × List SystemEvent) :=
  match tx.2 with
  | .ctc call => do
    let (ctc, events) ← CanonicalTransactionChain.exec keccak d s.ctc (tx.1, call)
    return ({s with ctc}, events.map .ctc)
  | .scc call => do
    let (scc, events) ←
      StateCommitmentChain.exec keccak d params s.scc ⟨tx.1, s.ctc.getTotalElements, call⟩
    return ({s with scc}, events.map .scc)

def init (zero : H) (maxGas divisor cost : Uint256) : System H :=
  ⟨.init zero maxGas divisor cost, .init zero⟩

end Model

variable (live : List ChainBatchHeader)

def applyEvent : SystemEvent → List ChainBatchHeader
  | .scc (.stateBatchAppended header) => live ++ [header]
  | .scc (.stateBatchDeleted batchIndex _) => live.take batchIndex.toNat
  | .ctc _ => live

abbrev Log (H : Type) := List (Transition (System H) (Message × SystemCall) SystemEvent)

def liveHeaders {H : Type} (log : Log H) : List ChainBatchHeader :=
  (log.flatMap Transition.events).foldl applyEvent []

def totalSize : ℕ := (live.map fun h => h.batchSize.toNat).sum

structure Ledger {H : Type} (keccak : Bytes → H) (s : System H) (live : List ChainBatchHeader) :
    Prop where
  batches : s.scc.batches.toList = live.map (hashBatchHeader keccak)
  totalElements : s.scc.extraData.totalElements.toNat = totalSize live
  prevTotalElements : ∀ (k : ℕ) (h : ChainBatchHeader), live[k]? = some h →
    h.prevTotalElements.toNat = totalSize (live.take k)
  batchIndex : ∀ (k : ℕ) (h : ChainBatchHeader), live[k]? = some h → h.batchIndex.toNat = k
  positive : ∀ h ∈ live, 0 < h.batchSize.toNat
  bounded : s.scc.extraData.totalElements.toNat ≤ s.ctc.extraData.totalElements.toNat

theorem totalSize_append (live more : List ChainBatchHeader) :
    totalSize (live ++ more) = totalSize live + totalSize more := by
  simp [totalSize]

theorem totalSize_take_le (k : ℕ) : totalSize (live.take k) ≤ totalSize live := by
  conv_rhs => rw [← take_append_drop k live, totalSize_append]
  exact le_add_right _ _

theorem getElem?_concat_of_ge {α : Type} {xs : List α} {x y : α} {k : ℕ} (hk : xs.length ≤ k)
    (h : (xs ++ [x])[k]? = some y) : k = xs.length ∧ x = y := by
  have hlt := (List.getElem?_eq_some_iff.mp h).1
  rw [length_append, length_singleton] at hlt
  obtain rfl : k = xs.length := by omega
  rw [getElem?_concat_length] at h
  exact ⟨rfl, Option.some.inj h⟩

theorem getElem?_take_eq_some {α : Type} {xs : List α} {x : α} {n k : ℕ}
    (h : (xs.take n)[k]? = some x) : k < n ∧ xs[k]? = some x := by
  have hk : k < n := by
    have hlt := (List.getElem?_eq_some_iff.mp h).1
    rw [length_take] at hlt
    omega
  rw [getElem?_take_of_lt hk] at h
  exact ⟨hk, h⟩

section Invariant

variable {H : Type} {keccak : Bytes → H} {d : Deployment} {params : Parameters}

theorem ledger_init (zero : H) (maxGas divisor cost : Uint256) :
    Ledger keccak (init zero maxGas divisor cost) [] where
  batches := Buffer.toList_empty _
  totalElements := by
    change (StateCommitmentChain.getBatchExtraData
      (BufferContext.unpack 0).extraData).totalElements.toNat = 0
    decide
  prevTotalElements := by simp
  batchIndex := by simp
  positive := by simp
  bounded := by
    change (StateCommitmentChain.getBatchExtraData
      (BufferContext.unpack 0).extraData).totalElements.toNat ≤ _
    exact zero_le _

theorem ctc_totalElements_le {s s' : CanonicalTransactionChain.State H}
    {tx : Message × CanonicalTransactionChain.Call} {events : List CanonicalTransactionChain.Event}
    (h : CanonicalTransactionChain.exec keccak d s tx = .ok (s', events)) :
    s.extraData.totalElements.toNat ≤ s'.extraData.totalElements.toNat := by
  obtain ⟨_, _, start, _, _, -, -, happ⟩ | ⟨-, -, hbatches, -⟩ :=
    CanonicalTransactionChain.exec_eq_ok h
  · rw [happ.totalElements]
    exact le_add_right _ _
  · rw [CanonicalTransactionChain.State.extraData, CanonicalTransactionChain.State.extraData,
      hbatches]

variable {live : List ChainBatchHeader} {s : System H} {scc : StateCommitmentChain.State H}
  {msg : Message}

variable (h : Ledger keccak s live)
include h

variable {call : StateCommitmentChain.Call} {header : ChainBatchHeader}

theorem Ledger.append (happ : StateCommitmentChain.Appended keccak s.scc ⟨msg,
      s.ctc.getTotalElements, call⟩ header scc) :
    Ledger keccak {s with scc} (live ++ [header]) := by
  have hlength : s.scc.batches.toList.length = live.length := by rw [h.batches, length_map]
  have hctc : s.ctc.getTotalElements.toNat = s.ctc.extraData.totalElements.toNat := by
    rw [CanonicalTransactionChain.State.getTotalElements, BitVec.toNat_setWidth, mod_eq_of_lt]
    exact s.ctc.extraData.totalElements.isLt.trans (by norm_num)
  have hprev : header.prevTotalElements.toNat = totalSize live := by
    rw [happ.prevTotalElements, h.totalElements]
  have hbound : header.prevTotalElements.toNat + header.batchSize.toNat ≤
      s.ctc.extraData.totalElements.toNat := hctc ▸ happ.bounded
  have htotal : scc.extraData.totalElements.toNat = totalSize (live ++ [header]) := by
    rw [happ.totalElements, mod_eq_of_lt (hbound.trans_lt (BitVec.isLt _)), hprev, totalSize_append]
    simp [totalSize]
  constructor
  · rw [happ.batches, h.batches, map_append]
    rfl
  · exact htotal
  · intro k a ha
    rcases lt_or_ge k live.length with hk | hk
    · rw [getElem?_append_left hk] at ha
      rw [take_append_of_le_length hk.le]
      exact h.prevTotalElements k a ha
    · obtain ⟨rfl, rfl⟩ := getElem?_concat_of_ge hk ha
      rw [take_left, hprev]
  · intro k a ha
    rcases lt_or_ge k live.length with hk | hk
    · rw [getElem?_append_left hk] at ha
      exact h.batchIndex k a ha
    · obtain ⟨rfl, rfl⟩ := getElem?_concat_of_ge hk ha
      rw [happ.batchIndex, hlength]
  · intro a ha
    rcases mem_append.mp ha with ha | ha
    · exact h.positive a ha
    · rw [mem_singleton.mp ha]
      exact happ.batchSize
  · rw [htotal, totalSize_append, ← hprev]
    simpa [totalSize] using hbound

variable (hinj : HeaderHashInjective keccak)
include hinj

theorem Ledger.delete (hdel : StateCommitmentChain.Deleted keccak params s.scc ⟨msg,
      s.ctc.getTotalElements, call⟩ header scc) :
    Ledger keccak {s with scc} (live.take header.batchIndex.toNat) := by
  have hvalid := hdel.valid
  rw [h.batches, getElem?_map, Option.map_eq_some_iff] at hvalid
  obtain ⟨a, ha, hhash⟩ := hvalid
  -- The caller's header has the contents of the live one, so it rewinds the counter correctly.
  have hprev : header.prevTotalElements = a.prevTotalElements := by
    rw [hinj _ _ hhash]
  have htake := totalSize_take_le live header.batchIndex.toNat
  have htotal : scc.extraData.totalElements.toNat =
      totalSize (live.take header.batchIndex.toNat) := by
    have hlt : totalSize (live.take header.batchIndex.toNat) < 2 ^ 40 := by
      have hlive := s.scc.extraData.totalElements.isLt
      rw [h.totalElements] at hlive
      exact htake.trans_lt hlive
    rw [hdel.totalElements, hprev, h.prevTotalElements _ a ha, mod_eq_of_lt hlt]
  constructor
  · rw [hdel.batches, h.batches, map_take]
  · exact htotal
  · intro k b hb
    obtain ⟨hk, hget⟩ := getElem?_take_eq_some hb
    rw [take_take, min_eq_left hk.le]
    exact h.prevTotalElements k b hget
  · intro k b hb
    exact h.batchIndex k b (getElem?_take_eq_some hb).2
  · intro b hb
    exact h.positive b (mem_of_mem_take hb)
  · rw [htotal]
    exact htake.trans (h.totalElements ▸ h.bounded)

omit hinj in
theorem Ledger.ctc {ctc : CanonicalTransactionChain.State H}
    (hle : s.ctc.extraData.totalElements.toNat ≤ ctc.extraData.totalElements.toNat) :
    Ledger keccak {s with ctc} live :=
  ⟨h.batches, h.totalElements, h.prevTotalElements, h.batchIndex, h.positive, h.bounded.trans hle⟩

omit h in
omit hinj in
theorem foldl_applyEvent_ctc (live : List ChainBatchHeader)
    (events : List CanonicalTransactionChain.Event) :
    (events.map SystemEvent.ctc).foldl applyEvent live = live := by
  induction events with
  | nil => rfl
  | cons event events ih => exact ih

variable [DecidableEq H]

theorem Ledger.step {s' : System H} {tx : Message × SystemCall} {events : List SystemEvent}
    (hexec : exec keccak d params s tx = .ok (s', events)) :
    Ledger keccak s' (events.foldl applyEvent live) := by
  obtain ⟨msg, call⟩ := tx
  cases call with
  | ctc =>
    simp only [exec, bind_eq_ok, pure_eq_ok, Prod.mk.injEq] at hexec
    obtain ⟨⟨ctc, ctcEvents⟩, hctc, rfl, rfl⟩ := hexec
    rw [foldl_applyEvent_ctc]
    exact h.ctc (ctc_totalElements_le hctc)
  | scc =>
    simp only [exec, bind_eq_ok, pure_eq_ok, Prod.mk.injEq] at hexec
    obtain ⟨⟨scc, sccEvents⟩, hscc, rfl, rfl⟩ := hexec
    obtain ⟨header, hevents, happ⟩ | ⟨header, hevents, hdel⟩ :=
      StateCommitmentChain.exec_eq_ok hscc
    · rw [hevents]
      exact h.append happ
    · rw [hevents]
      exact h.delete hinj hdel

omit hinj in
omit [DecidableEq H] in
theorem Ledger.prevTotalElements_lt {i j : ℕ} {a b : ChainBatchHeader} (hij : i < j)
    (ha : live[i]? = some a) (hb : live[j]? = some b) :
    a.prevTotalElements.toNat < b.prevTotalElements.toNat := by
  have hsucc : live.take (i + 1) = live.take i ++ [a] := by
    rw [take_add_one, ha]
    rfl
  have hle : totalSize (live.take (i + 1)) ≤ totalSize (live.take j) := by
    have htake := totalSize_take_le (live.take j) (i + 1)
    rwa [take_take, min_eq_left hij] at htake
  have hpos := h.positive a (mem_of_getElem? ha)
  have hsize : totalSize [a] = a.batchSize.toNat := by simp [totalSize]
  rw [h.prevTotalElements i a ha, h.prevTotalElements j b hb]
  rw [hsucc, totalSize_append, hsize] at hle
  omega

omit [DecidableEq H] in
theorem Ledger.nodup : s.scc.batches.toList.Nodup := by
  rw [h.batches, Nodup, pairwise_map, pairwise_iff_getElem]
  intro i j hi hj hij heq
  have hlt := h.prevTotalElements_lt hij (List.getElem?_eq_getElem hi) (List.getElem?_eq_getElem hj)
  rw [hinj _ _ heq] at hlt
  exact lt_irrefl _ hlt

theorem Ledger.accepts (hverify : StateCommitmentChain.verifyHeader keccak s.scc header = .ok ()) :
    ∃ a, live[header.batchIndex.toNat % 2 ^ 40]? = some a ∧ SameContents header a ∧
      a.batchIndex.toNat = header.batchIndex.toNat % 2 ^ 40 := by
  simp only [StateCommitmentChain.verifyHeader, bind_eq_ok, require_eq_ok] at hverify
  obtain ⟨valid, hvalid, rfl⟩ := hverify
  have hget := StateCommitmentChain.isValidBatchHeader_eq_true.mp hvalid
  rw [h.batches, getElem?_map, Option.map_eq_some_iff] at hget
  obtain ⟨a, ha, hhash⟩ := hget
  exact ⟨a, ha, hinj _ _ hhash.symm, h.batchIndex _ a ha⟩

omit h in
variable (d params) in
theorem ledger_run (zero : H) (maxGas divisor cost : Uint256) (txs : List (Message × SystemCall)) :
    Ledger keccak (run (exec keccak d params) (init zero maxGas divisor cost) txs)
      (liveHeaders (trace (exec keccak d params) (init zero maxGas divisor cost) txs)) := by
  apply run_invariant (P := fun s log => Ledger keccak s (liveHeaders log))
    (ledger_init zero maxGas divisor cost)
  intro s s' log tx events h hexec
  have hnext := h.step hinj hexec
  simpa [liveHeaders, foldl_append] using hnext

/-- The counters, what a header check accepts, and that hashes are distinct, with the live headers
`live`. -/
structure Bookkeeping (keccak : Bytes → H) (s : System H) (live : List ChainBatchHeader) :
    Prop where
  batches : s.scc.batches.toList = live.map (hashBatchHeader keccak)
  totalElements : s.scc.extraData.totalElements.toNat = totalSize live
  prevTotalElements : ∀ (k : ℕ) (h : ChainBatchHeader), live[k]? = some h →
    h.prevTotalElements.toNat = totalSize (live.take k)
  bounded : s.scc.extraData.totalElements.toNat ≤ s.ctc.extraData.totalElements.toNat
  accepts : ∀ header, StateCommitmentChain.verifyHeader keccak s.scc header = .ok () →
    ∃ a, live[header.batchIndex.toNat % 2 ^ 40]? = some a ∧ SameContents header a ∧
      a.batchIndex.toNat = header.batchIndex.toNat % 2 ^ 40
  distinct : s.scc.batches.toList.Nodup

omit h in
omit hinj in
/-- In every state that calls to the two contracts reach, the state commitment chain keeps its
books. -/
theorem scc_bookkeeping (keccak : Bytes → H) (d : Deployment) (params : Parameters)
    (hinj : HeaderHashInjective keccak) (zero : H) (maxGas divisor cost : Uint256)
    (txs : List (Message × SystemCall)) :
    Bookkeeping keccak (run (exec keccak d params) (init zero maxGas divisor cost) txs)
      (liveHeaders (trace (exec keccak d params) (init zero maxGas divisor cost) txs)) := by
  have hledger := ledger_run d params hinj zero maxGas divisor cost txs
  exact ⟨hledger.batches, hledger.totalElements, hledger.prevTotalElements, hledger.bounded,
    fun header => hledger.accepts hinj, hledger.nodup hinj⟩

end Invariant

def oneDeployment : Deployment := ⟨fun _ => 1, 1, 1, 1⟩

def oneMessage (timestamp : ℕ) : Message :=
  ⟨1, 1, BitVec.ofNat 256 timestamp, 10, fun _ => 0, 0⟩

def oneParams : Parameters :=
  ⟨100, 0, fun batch => .ok (batch.headD 0), fun _ _ _ _ _ => .ok true⟩

def oneBatch : Bytes :=
  [0xd0, 0xf8, 0x93, 0x44] ++ [0, 0, 0, 0, 0] ++ [0, 0, 2] ++ [0, 0, 1] ++
    ([0, 0, 2] ++ [0, 0, 0] ++ [0, 0, 0, 0, 9] ++ [0, 0, 0, 0, 3])

def oneRun : List (Message × SystemCall) :=
  [(oneMessage 10, .ctc (.appendSequencerBatch oneBatch)),
    (oneMessage 20, .scc (.appendStateBatch [7] 0)),
    (oneMessage 30, .scc (.appendStateBatch [8] 1)),
    (oneMessage 40, .scc (.deleteStateBatch ⟨1, 8, 1, 1, words [30, 1]⟩)),
    (oneMessage 50, .scc (.appendStateBatch [9] 1))]

theorem scc_bookkeeping_replaced :
    liveHeaders (trace (exec id oneDeployment oneParams) (init ([] : Bytes) 1000000 1 1) oneRun) =
      [⟨0, 7, 1, 0, words [20, 1]⟩, ⟨1, 9, 1, 1, words [50, 1]⟩] ∧
    Bookkeeping id
      (run (exec id oneDeployment oneParams) (init ([] : Bytes) 1000000 1 1) oneRun)
      (liveHeaders (trace (exec id oneDeployment oneParams)
        (init ([] : Bytes) 1000000 1 1) oneRun)) :=
  ⟨by decide +kernel, scc_bookkeeping id oneDeployment oneParams
    (StateCommitmentChain.headerHashInjective_of_injective Function.injective_id) [] 1000000 1 1
    oneRun⟩

end System

end Rollup
