import TokamakTitan.Rollup.Bookkeeping

/-! The proposer of the batch submitter (`drivers/proposer/driver.go`) and the state commitment
chain: the roots of a batch that it crafts, and where they end up when the batch is appended. -/
namespace BatchSubmitter.Proposer
open Checked Rollup Rollup.System Transactions
open StateCommitmentChain (Parameters HeaderHashInjective)

structure Config where
  minStateRootElements : ℕ
  maxStateRootElements : ℕ
  blockOffset : ℕ
  deriving DecidableEq

variable {H : Type} (cfg : Config) (block : ℕ → Except String Bytes32)

/-- The two contracts are asked one after the other, here in the states `s` and `s'`. -/
def getBatchBlockRange (s s' : System H) : Except String (ℕ × ℕ) :=
  let start := s.scc.getTotalElements.toNat + cfg.blockOffset
  let stop := s'.ctc.getTotalElements.toNat + cfg.blockOffset
  if stop < start then .error s!"invalid range, end({stop}) < start({start})"
  else .ok (start, stop)

/-- The loop over `n` blocks from block `i` on. -/
def collectRoots : ℕ → ℕ → List Bytes32 → Except String (List Bytes32)
  | 0, _, stateRoots => .ok stateRoots
  | n + 1, i, stateRoots =>
    if cfg.maxStateRootElements < stateRoots.length then .ok stateRoots
    else do
      let root ← block i
      collectRoots n (i + 1) (stateRoots ++ [root])

def craftBatchTx (start stop : ℕ) : Except String (Option StateCommitmentChain.Call) := do
  let stateRoots ← collectRoots cfg block (stop - start) start []
  if stateRoots.length < cfg.minStateRootElements then return none
  else
    let offsetStartsAtIndex := start - cfg.blockOffset
    return some (.appendStateBatch stateRoots (BitVec.ofNat 256 offsetStartsAtIndex))

/-- What a batch for the blocks from `start` up to `stop` should carry. -/
structure Carries (start stop : ℕ) (stateRoots : List Bytes32) : Prop where
  min_le : cfg.minStateRootElements ≤ stateRoots.length
  le_max : stateRoots.length ≤ cfg.maxStateRootElements
  blocks : ∀ (j : ℕ) root, stateRoots[j]? = some root → block (start + j) = .ok root
  inside : start + stateRoots.length ≤ stop

/-- Wherever the call has left a live batch, each root is at the state index of its block. -/
def Aligned (params : Parameters) (stateRoots : List Bytes32) (index : Uint256) (log : Log H) :
    Prop :=
  ∀ tr ∈ log, tr.tx.2 = .scc (.appendStateBatch stateRoots index) →
    ∃ header, tr.events = [.scc (.stateBatchAppended header)] ∧
      params.getMerkleRoot stateRoots = .ok header.batchRoot ∧
      header.batchSize.toNat = stateRoots.length ∧
      ∀ (k j : ℕ) root, (liveHeaders log)[k]? = some header → stateRoots[j]? = some root →
        block (totalSize ((liveHeaders log).take k) + j + cfg.blockOffset) = .ok root

variable {cfg block}

theorem collectRoots_eq_ok {n i : ℕ} {stateRoots out : List Bytes32}
    (hle : stateRoots.length ≤ cfg.maxStateRootElements + 1)
    (h : collectRoots cfg block n i stateRoots = .ok out) :
    ∃ more, out = stateRoots ++ more ∧
      out.length = min (stateRoots.length + n) (cfg.maxStateRootElements + 1) ∧
      ∀ (j : ℕ) root, more[j]? = some root → block (i + j) = .ok root := by
  induction n generalizing i stateRoots with
  | zero =>
    cases h
    exact ⟨[], by simp, by omega, by simp⟩
  | succ n ih =>
    rw [collectRoots] at h
    split at h
    next hfull =>
      cases h
      exact ⟨[], by simp, by omega, by simp⟩
    next hroom =>
      obtain ⟨root, hroot, h⟩ := bind_eq_ok.mp h
      obtain ⟨more, rfl, hlength, hblocks⟩ := ih (by simpa using hroom) h
      refine ⟨root :: more, by simp, ?_, ?_⟩
      · rw [hlength, List.length_append, List.length_singleton]
        omega
      · intro j other hj
        cases j with
        | zero =>
          obtain rfl := Option.some.inj hj
          exact hroot
        | succ j =>
          have hother := hblocks j other hj
          rwa [Nat.add_assoc, Nat.add_comm 1] at hother

theorem getBatchBlockRange_eq_ok {s s' : System H} {start stop : ℕ}
    (h : getBatchBlockRange cfg s s' = .ok (start, stop)) :
    start ≤ stop ∧ stop < 2 ^ 256 + cfg.blockOffset ∧
      start = s.scc.getTotalElements.toNat + cfg.blockOffset := by
  simp only [getBatchBlockRange] at h
  split at h
  next => cases h
  next hle =>
    cases h
    exact ⟨Nat.le_of_not_lt hle, Nat.add_lt_add_right (BitVec.isLt _) _, rfl⟩

section Crafted

variable {s s' : System H} {start stop : ℕ} {stateRoots : List Bytes32} {index : Uint256}

theorem craftBatchTx_eq_ok
    (h : craftBatchTx cfg block start stop = .ok (some (.appendStateBatch stateRoots index))) :
    index = BitVec.ofNat 256 (start - cfg.blockOffset) ∧
      cfg.minStateRootElements ≤ stateRoots.length ∧
      stateRoots.length = min (stop - start) (cfg.maxStateRootElements + 1) ∧
      ∀ (j : ℕ) root, stateRoots[j]? = some root → block (start + j) = .ok root := by
  obtain ⟨out, hout, h⟩ := bind_eq_ok.mp h
  obtain ⟨more, rfl, hlength, hblocks⟩ := collectRoots_eq_ok (Nat.zero_le _) hout
  split at h
  next => cases h
  next hmin =>
    cases h
    rw [List.length_nil, Nat.zero_add] at hlength
    exact ⟨rfl, Nat.le_of_not_lt hmin, hlength, hblocks⟩

theorem carries_iff (hrange : getBatchBlockRange cfg s s' = .ok (start, stop))
    (hcraft : craftBatchTx cfg block start stop = .ok (some (.appendStateBatch stateRoots index))) :
    Carries cfg block start stop stateRoots ↔ stop ≤ start + cfg.maxStateRootElements := by
  obtain ⟨hle, -, -⟩ := getBatchBlockRange_eq_ok hrange
  obtain ⟨-, hmin, hlength, hblocks⟩ := craftBatchTx_eq_ok hcraft
  constructor
  · intro h
    have hmax := h.le_max
    omega
  · intro hshort
    exact ⟨hmin, by omega, hblocks, by omega⟩

variable [DecidableEq H] {keccak : Abi.Bytes → H} {d : Deployment} {params : Parameters}

theorem exec_appendStateBatch {msg : Message} {post : System H} {events : List SystemEvent}
    (h : exec keccak d params s (msg, .scc (.appendStateBatch stateRoots index)) =
      .ok (post, events)) :
    ∃ header, events = [.scc (.stateBatchAppended header)] ∧
      params.getMerkleRoot stateRoots = .ok header.batchRoot ∧
      header.batchSize = BitVec.ofNat 256 stateRoots.length ∧
      header.prevTotalElements = index := by
  simp only [exec, bind_eq_ok, pure_eq_ok, Prod.mk.injEq] at h
  obtain ⟨⟨scc, sccEvents⟩, hscc, -, rfl⟩ := h
  obtain ⟨header, rfl, h⟩ := StateCommitmentChain.appendStateBatch_roots
    ⟨msg, s.ctc.getTotalElements, .appendStateBatch stateRoots index⟩ hscc
  exact ⟨header, rfl, h⟩

/-- A crafted batch carries what it should exactly when its range is no longer than the maximum, and
its roots are aligned with the blocks however late, often or interleaved the call is executed. -/
theorem proposer_aligned (keccak : Abi.Bytes → H) (d : Deployment) (params : Parameters)
    (hinj : HeaderHashInjective keccak) (zero : H) (maxGas divisor cost : Uint256)
    (txs : List (Message × SystemCall))
    (hrange : getBatchBlockRange cfg s s' = .ok (start, stop))
    (hcraft : craftBatchTx cfg block start stop = .ok (some (.appendStateBatch stateRoots index))) :
    (Carries cfg block start stop stateRoots ↔ stop ≤ start + cfg.maxStateRootElements) ∧
    Aligned cfg block params stateRoots index
      (trace (exec keccak d params) (init zero maxGas divisor cost) txs) := by
  refine ⟨carries_iff hrange hcraft, ?_⟩
  obtain ⟨hle, hlt, hstart⟩ := getBatchBlockRange_eq_ok hrange
  obtain ⟨hindex, -, hlength, hblocks⟩ := craftBatchTx_eq_ok hcraft
  rintro ⟨pre, ⟨msg, call⟩, post, events⟩ htr rfl
  obtain ⟨header, hevents, hroot, hsize, hprev⟩ := exec_appendStateBatch (mem_trace htr).1
  refine ⟨header, hevents, hroot, ?_, ?_⟩
  · rw [hsize, BitVec.toNat_ofNat, Nat.mod_eq_of_lt (by omega)]
  · intro k j root hk hj
    have htotal := (ledger_run d params hinj zero maxGas divisor cost txs).prevTotalElements k _ hk
    have hoffset : start - cfg.blockOffset = s.scc.getTotalElements.toNat := by omega
    rw [hprev, hindex, hoffset, BitVec.toNat_ofNat, Nat.mod_eq_of_lt (BitVec.isLt _)] at htotal
    have hblock := hblocks j root hj
    rw [hstart] at hblock
    rw [← htotal, Nat.add_right_comm]
    exact hblock

end Crafted

/-- The contracts after one sequencer batch with two elements. -/
def oneSystem : System Abi.Bytes :=
  run (exec id oneDeployment oneParams) (init [] 1000000 1 1) (oneRun.take 1)

def tenfold (i : ℕ) : Except String Bytes32 := .ok (BitVec.ofNat 256 (10 * i))

theorem proposer_aligned_sample :
    (Carries ⟨1, 2, 1⟩ tenfold 1 3 [10, 20] ↔ 3 ≤ 1 + 2) ∧
    Aligned ⟨1, 2, 1⟩ tenfold oneParams [10, 20] 0
      (trace (exec id oneDeployment oneParams) (init ([] : Abi.Bytes) 1000000 1 1)
        (oneRun.take 1 ++ [(oneMessage 20, .scc (.appendStateBatch [10, 20] 0))])) := by
  have hrange : getBatchBlockRange ⟨1, 2, 1⟩ oneSystem oneSystem = .ok (1, 3) := by
    decide +kernel
  exact proposer_aligned id oneDeployment oneParams
    (StateCommitmentChain.headerHashInjective_of_injective Function.injective_id) [] 1000000 1 1 _
    hrange rfl

/-- The loop stops only once it holds more roots than the maximum. -/
theorem craftBatchTx_above_max :
    getBatchBlockRange ⟨1, 1, 1⟩ oneSystem oneSystem = .ok (1, 3) ∧
    craftBatchTx ⟨1, 1, 1⟩ tenfold 1 3 = .ok (some (.appendStateBatch [10, 20] 0)) ∧
    ¬ Carries ⟨1, 1, 1⟩ tenfold 1 3 [10, 20] := by
  refine ⟨by decide +kernel, rfl, fun h => ?_⟩
  exact absurd h.le_max (by decide)

end BatchSubmitter.Proposer
