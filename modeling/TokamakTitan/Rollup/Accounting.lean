import TokamakTitan.Rollup.CanonicalTransactionChain

/-! The counters of the canonical transaction chain over whole runs. Two copies of the queue index
are advanced by different formulas, and stay equal exactly when every accepted batch announces the
number of elements that its contexts describe. -/
namespace Rollup.CanonicalTransactionChain
open Checked Abi Transactions

section Run

variable {H : Type} (keccak : Bytes → H) (d : Deployment)

def appendedElements : Call → ℕ
  | .appendSequencerBatch data => numSequenced data + numSubsequentQueue data
  | .enqueue _ _ _ => 0
  | .setGasParams _ _ => 0

def Balanced : Call → Prop
  | .appendSequencerBatch data =>
    (totalElementsToAppend data).toNat = numSequenced data + numSubsequentQueue data
  | .enqueue _ _ _ => True
  | .setGasParams _ _ => True

abbrev Log (H : Type) := List (Transition (State H) (Message × Call) Event)

/-- The accounting of a state that was reached by the accepted transitions of `log`. -/
structure Accounting (s : State H) (log : Log H) : Prop where
  nextQueueIndex : s.extraData.nextQueueIndex = s.nextQueueIndex
  queued : s.nextQueueIndex.toNat ≤ s.queueElements.length
  totalElements : s.extraData.totalElements.toNat =
    (log.map fun tr => appendedElements tr.tx.2).sum
  startingQueueIndex : ∀ tr ∈ log, ∀ start num total,
    .sequencerBatchAppended start num total ∈ tr.events →
      start.toNat = tr.pre.nextQueueIndex.toNat

theorem accounting_init (zero : H) (maxGas divisor cost : Uint256) :
    Accounting (State.init zero maxGas divisor cost) [] where
  nextQueueIndex := by rw [State.extraData_init]; rfl
  queued := Nat.zero_le _
  totalElements := by rw [State.extraData_init]; rfl
  startingQueueIndex := by simp

variable {keccak d}

theorem appendedElements_of_ne {call : Call} (h : ∀ data, call ≠ .appendSequencerBatch data) :
    appendedElements call = 0 := by
  cases call with
  | setGasParams => rfl
  | enqueue => rfl
  | appendSequencerBatch data => exact absurd rfl (h data)

variable {tx : Message × Call}

theorem Accounting.step {s s' : State H} {log : Log H} {events : List Event} (ha : Accounting s log)
    (hb : Balanced tx.2) (h : exec keccak d s tx = .ok (s', events)) :
    Accounting s' (log ++ [⟨s, tx, s', events⟩]) := by
  obtain ⟨data, header, start, num, total, hcall, rfl, hap⟩ |
    ⟨hcall, hevents, hbatches, hnext, hqueue⟩ := exec_eq_ok h
  · rw [hcall, Balanced] at hb
    have hindex := ha.nextQueueIndex
    have hpacked := hap.packedIndex
    have hstored := hap.storedIndex
    have hstart := hap.startingQueueIndex
    rw [hindex] at hpacked
    constructor
    · apply BitVec.eq_of_toNat_eq
      omega
    · rw [hap.queueElements]
      exact hap.queued
    · rw [hap.totalElements, ha.totalElements]
      simp [hcall, appendedElements, hb]
    · intro tr htr start' num' total' hmem
      rcases List.mem_append.mp htr with htr | htr
      · exact ha.startingQueueIndex tr htr _ _ _ hmem
      · obtain rfl := List.mem_singleton.mp htr
        obtain ⟨rfl, -, -⟩ : start' = start ∧ num' = num ∧ total' = total := by simpa using hmem
        show start'.toNat = s.nextQueueIndex.toNat
        omega
  · have hextra : s'.extraData = s.extraData := by
      rw [State.extraData, hbatches]
      rfl
    constructor
    · rw [hextra, hnext]
      exact ha.nextQueueIndex
    · rw [hnext]
      exact ha.queued.trans hqueue.length_le
    · rw [hextra, ha.totalElements]
      simp [appendedElements_of_ne hcall]
    · intro tr htr start num total hmem
      rcases List.mem_append.mp htr with htr | htr
      · exact ha.startingQueueIndex tr htr _ _ _ hmem
      · obtain rfl := List.mem_singleton.mp htr
        exact absurd hmem (hevents start num total)

theorem balanced_of_totalElements {s s' : State H} {log : Log H} {events : List Event}
    (ha : Accounting s log) (ha' : Accounting s' (log ++ [⟨s, tx, s', events⟩]))
    (h : exec keccak d s tx = .ok (s', events)) : Balanced tx.2 := by
  obtain ⟨data, _, start, _, _, hcall, -, hap⟩ | ⟨hcall, -⟩ := exec_eq_ok h
  · have htotal := ha'.totalElements
    rw [hap.totalElements, ha.totalElements] at htotal
    rw [hcall, Balanced]
    simpa [hcall, appendedElements] using htotal
  · cases hc : tx.2 with
    | setGasParams => trivial
    | enqueue => trivial
    | appendSequencerBatch data => exact absurd hc (hcall data)

/-- In a run of arbitrary calls, the accounting holds in every state exactly when every accepted
batch is balanced. -/
theorem ctc_accounting_iff (keccak : Bytes → H) (d : Deployment) (zero : H)
    (maxGas divisor cost : Uint256) (txs : List (Message × Call)) :
    (∀ sofar, sofar <+: txs →
      Accounting (run (exec keccak d) (State.init zero maxGas divisor cost) sofar)
        (trace (exec keccak d) (State.init zero maxGas divisor cost) sofar)) ↔
    ∀ tr ∈ trace (exec keccak d) (State.init zero maxGas divisor cost) txs, Balanced tr.tx.2 := by
  constructor
  · intro hall tr htr
    obtain ⟨hexec, us, vs, htxs, hpre⟩ := mem_trace htr
    have hbefore := hall us ⟨tr.tx :: vs, htxs.symm⟩
    have hafter := hall (us ++ [tr.tx]) ⟨vs, by simp [htxs]⟩
    rw [run_concat, trace_concat, ← hpre, (step_ok hexec).1, (step_ok hexec).2] at hafter
    rw [← hpre] at hbefore
    exact balanced_of_totalElements hbefore hafter hexec
  · rintro hb sofar ⟨rest, rfl⟩
    rw [trace_append] at hb
    have hrun : (∀ tr ∈ trace (exec keccak d) (State.init zero maxGas divisor cost) sofar,
        Balanced tr.tx.2) →
        Accounting (run (exec keccak d) (State.init zero maxGas divisor cost) sofar)
          (trace (exec keccak d) (State.init zero maxGas divisor cost) sofar) :=
      run_invariant (P := fun s (log : Log H) => (∀ tr ∈ log, Balanced tr.tx.2) → Accounting s log)
        (fun _ => accounting_init zero maxGas divisor cost)
        (fun s s' log tx es ih hexec hbal =>
          (ih fun tr htr => hbal tr (List.mem_append_left _ htr)).step
            (hbal _ (List.mem_append_right _ (List.mem_singleton_self _))) hexec) sofar
    exact hrun fun tr htr => hb tr (List.mem_append_left _ htr)

end Run

def seqDeployment : Deployment :=
  ⟨fun name => if name = "OVM_Sequencer" then 1 else 2, 0, 2, 3⟩

def seqMessage : Message := ⟨1, 1, 100, 10, fun _ => 0, 0⟩

/-- Calldata that announces no element, with one context of one queue transaction. -/
def unbalancedBatch : Bytes :=
  [0xd0, 0xf8, 0x93, 0x44] ++ [0, 0, 0, 0, 0] ++ [0, 0, 0] ++ [0, 0, 1] ++
    ([0, 0, 0] ++ [0, 0, 1] ++ [0, 0, 0, 0, 0] ++ [0, 0, 0, 0, 0])

def unbalancedRun : List (Message × Call) :=
  [(seqMessage, .enqueue 7 100000 []), (seqMessage, .appendSequencerBatch unbalancedBatch)]

def seqInit : State Bytes := State.init [] 1000000 1 100000

def unbalancedState : State Bytes := run (exec id seqDeployment) seqInit unbalancedRun

def unbalancedLog : Log Bytes := trace (exec id seqDeployment) seqInit unbalancedRun

/-- After one queued transaction and the unbalanced batch, each of the accounts is wrong. -/
theorem ctc_accounting_unbalanced :
    unbalancedState.extraData.nextQueueIndex ≠ unbalancedState.nextQueueIndex ∧
    unbalancedState.extraData.totalElements.toNat ≠
      (unbalancedLog.map fun tr => appendedElements tr.tx.2).sum ∧
    ∃ tr ∈ unbalancedLog, .sequencerBatchAppended 1 0 0 ∈ tr.events ∧
      tr.pre.nextQueueIndex = 0 := by
  refine ⟨by decide +kernel, by decide +kernel, ?_⟩
  decide +kernel

end Rollup.CanonicalTransactionChain
