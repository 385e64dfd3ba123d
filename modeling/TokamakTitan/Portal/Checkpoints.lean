import Mathlib.Order.Bounds.Basic
import TokamakTitan.Portal.L2OutputOracle

/-! Which outputs the oracle holds: one for every checkpoint up to the latest, as long as the
starting output is not deleted. -/
namespace Portal
open Checked Transactions Function Nat

namespace L2OutputOracle

section Checkpoints

variable {H : Type} [Zero H] {config : Config}

/-- A block at which an output is recorded while `latest` is the latest such block. -/
def IsCheckpoint (config : Config) (latest b : Uint256) : Prop :=
  config.startingBlockNumber.toNat ≤ b.toNat ∧ b.toNat ≤ latest.toNat ∧
    config.submissionInterval.toNat ∣ b.toNat - config.startingBlockNumber.toNat

variable {b latest : Uint256}

theorem isCheckpoint_next {next : Uint256} (hlatest : IsCheckpoint config latest latest)
    (hnext : next.toNat = latest.toNat + config.submissionInterval.toNat) :
    IsCheckpoint config next b ↔ IsCheckpoint config latest b ∨ b = next := by
  obtain ⟨hstart, -, hdvd⟩ := hlatest
  constructor
  · rintro ⟨hb, hle, hbdvd⟩
    rcases lt_or_ge latest.toNat b.toNat with hlt | hge
    · right
      have hstep : config.submissionInterval.toNat ∣ b.toNat - latest.toNat := by
        have heq : b.toNat - latest.toNat = b.toNat - config.startingBlockNumber.toNat -
            (latest.toNat - config.startingBlockNumber.toNat) := by omega
        rw [heq]
        exact dvd_sub hbdvd hdvd
      have hge := le_of_dvd (by omega) hstep
      exact BitVec.eq_of_toNat_eq (by omega)
    · exact .inl ⟨hb, hge, hbdvd⟩
  · rintro (⟨hb, hle, hbdvd⟩ | rfl)
    · exact ⟨hb, by omega, hbdvd⟩
    · refine ⟨by omega, le_refl _, ?_⟩
      have heq : b.toNat - config.startingBlockNumber.toNat =
          latest.toNat - config.startingBlockNumber.toNat + config.submissionInterval.toNat := by
        omega
      rw [heq]
      exact Nat.dvd_add hdvd (dvd_refl _)

theorem isCheckpoint_previous {previous : Uint256} (hlatest : IsCheckpoint config latest latest)
    (hne : latest ≠ config.startingBlockNumber)
    (hprevious : latest.toNat = config.submissionInterval.toNat + previous.toNat) :
    IsCheckpoint config previous previous := by
  obtain ⟨hstart, -, hdvd⟩ := hlatest
  have hlt : config.startingBlockNumber.toNat < latest.toNat := by
    apply lt_of_le_of_ne hstart
    intro heq
    exact hne (BitVec.eq_of_toNat_eq heq.symm)
  have hge := le_of_dvd (by omega) hdvd
  refine ⟨by omega, le_refl _, ?_⟩
  have heq : previous.toNat - config.startingBlockNumber.toNat =
      latest.toNat - config.startingBlockNumber.toNat - config.submissionInterval.toNat := by omega
  rw [heq]
  exact dvd_sub hdvd (dvd_refl _)

/-- Outputs are stored at the checkpoints up to the latest, in order of time. -/
structure Recorded (config : Config) (s : Storage H) : Prop where
  latest : IsCheckpoint config s.latestBlockNumber s.latestBlockNumber
  stored : ∀ b, IsCheckpoint config s.latestBlockNumber b → (s.l2Outputs b).outputRoot ≠ 0
  absent : ∀ b, ¬ IsCheckpoint config s.latestBlockNumber b → s.l2Outputs b = .absent
  ordered : ∀ b c, IsCheckpoint config s.latestBlockNumber b →
    IsCheckpoint config s.latestBlockNumber c → b ≤ c →
    (s.l2Outputs b).timestamp ≤ (s.l2Outputs c).timestamp

def RecordedBy (now : Uint256) (s : Storage H) : Prop := ∀ b, (s.l2Outputs b).timestamp ≤ now

section Effects

variable [DecidableEq H] {env : Env H} {s s' : Storage H} {events : List (Event H)}

theorem proposeL2Output_eq_ok {outputRoot l1Blockhash : H} {l2BlockNumber l1BlockNumber : Uint256}
    (h : proposeL2Output config env outputRoot l2BlockNumber l1Blockhash l1BlockNumber s =
      .ok (s', events)) :
    l2BlockNumber.toNat = s.latestBlockNumber.toNat + config.submissionInterval.toNat ∧
      outputRoot ≠ 0 ∧
      s' = {s with
        l2Outputs := update s.l2Outputs l2BlockNumber ⟨outputRoot, env.timestamp⟩
        latestBlockNumber := l2BlockNumber} := by
  simp only [proposeL2Output, nextBlockNumber, bind_eq_ok, require_eq_ok, add_eq_ok,
    pure_eq_ok] at h
  obtain ⟨-, -, next, hnext, -, rfl, -, -, -, -, -, hroot, -, -, heq⟩ := h
  exact ⟨hnext.symm, hroot, (Prod.mk.inj heq).1.symm⟩

theorem deleteL2Output_eq_ok {proposal : OutputProposal H}
    (h : deleteL2Output config env proposal s = .ok (s', events)) :
    ∃ previous : Uint256,
      s.latestBlockNumber.toNat = config.submissionInterval.toNat + previous.toNat ∧
      s' = {s with
        l2Outputs := update s.l2Outputs s.latestBlockNumber .absent
        latestBlockNumber := previous} := by
  simp only [deleteL2Output, bind_eq_ok, sub_eq_ok, pure_eq_ok] at h
  obtain ⟨-, -, -, -, -, -, previous, hprevious, heq⟩ := h
  exact ⟨previous, hprevious, (Prod.mk.inj heq).1.symm⟩

theorem exec_eq_ok {tx : Tx H} (h : exec config s tx = .ok (s', events)) :
    (∃ next outputRoot,
      next.toNat = s.latestBlockNumber.toNat + config.submissionInterval.toNat ∧
      outputRoot ≠ 0 ∧
      s' = {s with
        l2Outputs := update s.l2Outputs next ⟨outputRoot, tx.env.timestamp⟩
        latestBlockNumber := next}) ∨
    (∃ proposal previous, tx.call = .deleteL2Output proposal ∧
      s.latestBlockNumber.toNat = config.submissionInterval.toNat + previous.toNat ∧
      s' = {s with
        l2Outputs := update s.l2Outputs s.latestBlockNumber .absent
        latestBlockNumber := previous}) ∨
    (s'.latestBlockNumber = s.latestBlockNumber ∧ s'.l2Outputs = s.l2Outputs) := by
  unfold exec at h
  cases hcall : tx.call with
  | proposeL2Output outputRoot l2BlockNumber =>
    rw [hcall] at h
    exact .inl ⟨l2BlockNumber, outputRoot, proposeL2Output_eq_ok h⟩
  | deleteL2Output proposal =>
    rw [hcall] at h
    obtain ⟨previous, hprevious⟩ := deleteL2Output_eq_ok h
    exact .inr (.inl ⟨proposal, previous, rfl, hprevious⟩)
  | changeProposer =>
    rw [hcall] at h
    simp only [changeProposer, bind_eq_ok, pure_eq_ok] at h
    obtain ⟨-, -, -, -, -, -, heq⟩ := h
    obtain ⟨rfl, -⟩ := Prod.mk.inj heq
    exact .inr (.inr ⟨rfl, rfl⟩)
  | transferOwnership =>
    rw [hcall] at h
    simp only [transferOwnership, bind_eq_ok, pure_eq_ok] at h
    obtain ⟨-, -, -, -, -, -, heq⟩ := h
    obtain ⟨rfl, -⟩ := Prod.mk.inj heq
    exact .inr (.inr ⟨rfl, rfl⟩)
  | renounceOwnership =>
    rw [hcall] at h
    simp only [renounceOwnership, bind_eq_ok, pure_eq_ok] at h
    obtain ⟨-, -, heq⟩ := h
    obtain ⟨rfl, -⟩ := Prod.mk.inj heq
    exact .inr (.inr ⟨rfl, rfl⟩)

end Effects

section Steps

variable {s : Storage H} {now : Uint256}

theorem Recorded.propose (h : Recorded config s) (hnow : RecordedBy now s) {next : Uint256}
    {outputRoot : H}
    (hnext : next.toNat = s.latestBlockNumber.toNat + config.submissionInterval.toNat)
    (hroot : outputRoot ≠ 0) :
    Recorded config {s with
      l2Outputs := update s.l2Outputs next ⟨outputRoot, now⟩
      latestBlockNumber := next} := by
  have hcheck : ∀ b, IsCheckpoint config next b ↔
      IsCheckpoint config s.latestBlockNumber b ∨ b = next :=
    fun b => isCheckpoint_next h.latest hnext
  constructor
  case latest => exact (hcheck next).mpr (.inr rfl)
  case stored =>
    intro b hb
    by_cases heq : b = next
    · rw [heq]
      simpa using hroot
    · simp only [update_of_ne heq]
      exact h.stored b (((hcheck b).mp hb).resolve_right heq)
  case absent =>
    intro b hb
    have hne : b ≠ next := fun heq => hb ((hcheck b).mpr (.inr heq))
    simp only [update_of_ne hne]
    exact h.absent b fun hold => hb ((hcheck b).mpr (.inl hold))
  case ordered =>
    intro b c hb hc hle
    by_cases hcnext : c = next
    · rw [hcnext]
      simp only [update_self]
      by_cases hbnext : b = next
      · rw [hbnext]
        simp
      · simp only [update_of_ne hbnext]
        exact hnow b
    · have hcold := ((hcheck c).mp hc).resolve_right hcnext
      have hbnext : b ≠ next := by
        rintro rfl
        have hlt := hcold.2.1
        have hge : b.toNat ≤ c.toNat := hle
        exact hcnext (BitVec.eq_of_toNat_eq (by omega))
      simp only [update_of_ne hbnext, update_of_ne hcnext]
      exact h.ordered b c (((hcheck b).mp hb).resolve_right hbnext) hcold hle

theorem Recorded.delete (h : Recorded config s) (hinterval : 0 < config.submissionInterval.toNat)
    {previous : Uint256}
    (hprevious : s.latestBlockNumber.toNat = config.submissionInterval.toNat + previous.toNat)
    (hne : s.latestBlockNumber ≠ config.startingBlockNumber) :
    Recorded config {s with
      l2Outputs := update s.l2Outputs s.latestBlockNumber .absent
      latestBlockNumber := previous} := by
  have hcheck : ∀ b, IsCheckpoint config s.latestBlockNumber b ↔
      IsCheckpoint config previous b ∨ b = s.latestBlockNumber :=
    fun b => isCheckpoint_next (isCheckpoint_previous h.latest hne hprevious) (by omega)
  have hold : ∀ b, IsCheckpoint config previous b → b ≠ s.latestBlockNumber := by
    rintro b ⟨-, hle, -⟩ rfl
    omega
  constructor
  case latest => exact isCheckpoint_previous h.latest hne hprevious
  case stored =>
    intro b hb
    simp only [update_of_ne (hold b hb)]
    exact h.stored b ((hcheck b).mpr (.inl hb))
  case absent =>
    intro b hb
    by_cases heq : b = s.latestBlockNumber
    · rw [heq]
      simp
    · simp only [update_of_ne heq]
      exact h.absent b fun hb' => hb (((hcheck b).mp hb').resolve_right heq)
  case ordered =>
    intro b c hb hc hle
    simp only [update_of_ne (hold b hb), update_of_ne (hold c hc)]
    exact h.ordered b c ((hcheck b).mpr (.inl hb)) ((hcheck c).mpr (.inl hc)) hle

def gap (m d : ℕ) : ℕ := if d % m = 0 then 0 else m - d % m

theorem dvd_add_gap {m : ℕ} (hm : 0 < m) (d : ℕ) : m ∣ d + gap m d := by
  unfold gap
  split
  next hzero => exact dvd_of_mod_eq_zero hzero
  next =>
    have hmod := mod_lt d hm
    have hdiv := div_add_mod d m
    refine ⟨d / m + 1, ?_⟩
    rw [mul_succ]
    omega

theorem add_gap_le {m d n : ℕ} (hm : 0 < m) (hn : m ∣ n) (hdn : d ≤ n) : d + gap m d ≤ n := by
  unfold gap
  split
  next => exact hdn
  next hzero =>
    obtain ⟨k, rfl⟩ := hn
    have hmod := mod_lt d hm
    have hdiv := div_add_mod d m
    have hlt : d / m < k := by
      apply Nat.div_lt_of_lt_mul
      apply lt_of_le_of_ne hdn
      intro heq
      rw [heq, mul_mod_right] at hzero
      exact hzero rfl
    have hmul := mul_le_mul_left m (succ_le_of_lt hlt)
    rw [mul_succ] at hmul
    omega

theorem lookupBlockNumber_eq_ok (hinterval : 0 < config.submissionInterval.toNat) {c : Uint256}
    (hstart : config.startingBlockNumber ≤ b) (hc : c.toNat = b.toNat + gap
      config.submissionInterval.toNat (b.toNat - config.startingBlockNumber.toNat)) :
    lookupBlockNumber config b = .ok c := by
  have hdistance : sub b config.startingBlockNumber = .ok (b - config.startingBlockNumber) :=
    if_pos hstart
  have hoffset : ((b - config.startingBlockNumber) % config.submissionInterval).toNat =
      (b.toNat - config.startingBlockNumber.toNat) % config.submissionInterval.toNat := by
    rw [BitVec.toNat_umod, BitVec.toNat_sub_of_le hstart]
  have hmod := mod_lt (b.toNat - config.startingBlockNumber.toNat) hinterval
  unfold gap at hc
  split at hc
  next hzero =>
    have heq : (b - config.startingBlockNumber) % config.submissionInterval = 0 :=
      BitVec.eq_of_toNat_eq (by rw [hoffset, hzero]; rfl)
    simp only [lookupBlockNumber, require, if_pos hstart, hdistance, mod_of_pos hinterval,
      ok_bind, heq, ↓reduceIte]
    rw [pure_eq_ok]
    exact BitVec.eq_of_toNat_eq hc.symm
  next hne =>
    have hoffsetNe : (b - config.startingBlockNumber) % config.submissionInterval ≠ 0 := by
      intro heq
      rw [heq] at hoffset
      exact hne hoffset.symm
    have hgap : sub config.submissionInterval
        ((b - config.startingBlockNumber) % config.submissionInterval) =
        .ok (config.submissionInterval -
          (b - config.startingBlockNumber) % config.submissionInterval) :=
      if_pos (by omega)
    have hgapNat := sub_eq_ok.mp hgap
    simp only [lookupBlockNumber, require, if_pos hstart, hdistance, mod_of_pos hinterval,
      ok_bind, if_neg hoffsetNe, hgap]
    rw [add_eq_ok]
    omega

theorem Recorded.isLeast_lookup (h : Recorded config s)
    (hinterval : 0 < config.submissionInterval.toNat) (hstart : config.startingBlockNumber ≤ b)
    (hlatest : b ≤ s.latestBlockNumber) :
    ∃ c, IsLeast {c | IsCheckpoint config s.latestBlockNumber c ∧ b ≤ c} c ∧
      lookupBlockNumber config b = .ok c := by
  obtain ⟨hlow, -, hdvd⟩ := h.latest
  have hb : config.startingBlockNumber.toNat ≤ b.toNat := hstart
  have hle : b.toNat ≤ s.latestBlockNumber.toNat := hlatest
  have hbound := s.latestBlockNumber.isLt
  have hnext := add_gap_le hinterval hdvd (Nat.sub_le_sub_right hle _)
  obtain ⟨c, hc⟩ : ∃ c : Uint256, c.toNat = b.toNat +
      gap config.submissionInterval.toNat (b.toNat - config.startingBlockNumber.toNat) :=
    ⟨BitVec.ofNat 256 _, mod_eq_of_lt (by omega)⟩
  have hmultiple : config.submissionInterval.toNat ∣
      c.toNat - config.startingBlockNumber.toNat := by
    have hdvdGap := dvd_add_gap hinterval (b.toNat - config.startingBlockNumber.toNat)
    rwa [← Nat.sub_add_comm hb, ← hc] at hdvdGap
  refine ⟨c, ⟨⟨⟨by omega, by omega, hmultiple⟩, show b.toNat ≤ c.toNat by omega⟩, ?_⟩,
    lookupBlockNumber_eq_ok hinterval hstart hc⟩
  rintro e ⟨⟨helow, -, hedvd⟩, hbe⟩
  have hbe' : b.toNat ≤ e.toNat := hbe
  have hround := add_gap_le hinterval hedvd (Nat.sub_le_sub_right hbe' _)
  show c.toNat ≤ e.toNat
  omega

end Steps

/-- The blocks of the transactions are in the order of their timestamps, from `now` on. -/
def Chronological : Uint256 → List (Tx H) → Prop
  | _, [] => True
  | now, tx :: txs => now ≤ tx.env.timestamp ∧ Chronological tx.env.timestamp txs

variable [DecidableEq H]

/-- Outputs are stored exactly at the checkpoints, in the order of time, and are found. -/
structure OutputsValid (config : Config) (s : Storage H) : Prop where
  start_le : config.startingBlockNumber ≤ s.latestBlockNumber
  congruent : s.latestBlockNumber.toNat ≡ config.startingBlockNumber.toNat
    [MOD config.submissionInterval.toNat]
  nonzero_iff : ∀ b, (s.l2Outputs b).outputRoot ≠ 0 ↔ IsCheckpoint config s.latestBlockNumber b
  ordered : ∀ b c, IsCheckpoint config s.latestBlockNumber b →
    IsCheckpoint config s.latestBlockNumber c → b ≤ c →
    (s.l2Outputs b).timestamp ≤ (s.l2Outputs c).timestamp
  lookup : ∀ b, config.startingBlockNumber ≤ b → b ≤ s.latestBlockNumber →
    ∃ c, IsLeast {c | IsCheckpoint config s.latestBlockNumber c ∧ b ≤ c} c ∧
      getL2Output config b s = .ok (s.l2Outputs c)

variable {s s' : Storage H} {tx : Tx H} {now : Uint256}

theorem Recorded.outputsValid (h : Recorded config s)
    (hinterval : 0 < config.submissionInterval.toNat) : OutputsValid config s := by
  constructor
  case start_le => exact h.latest.1
  case congruent => exact ((modEq_iff_dvd' h.latest.1).mpr h.latest.2.2).symm
  case nonzero_iff =>
    intro b
    refine ⟨fun hne => ?_, h.stored b⟩
    by_contra hnot
    rw [h.absent b hnot] at hne
    exact hne rfl
  case ordered => exact h.ordered
  case lookup =>
    intro b hstart hlatest
    obtain ⟨c, hleast, hlookup⟩ := h.isLeast_lookup hinterval hstart hlatest
    refine ⟨c, hleast, ?_⟩
    simp only [getL2Output, hlookup, ok_bind, require, if_pos (h.stored c hleast.1.1)]
    rfl

theorem Recorded.exec (h : Recorded config s) (hinterval : 0 < config.submissionInterval.toNat)
    (hnow : RecordedBy tx.env.timestamp s) {events : List (Event H)}
    (hexec : exec config s tx = .ok (s', events))
    (hkept : tx.call.isDelete → s.latestBlockNumber ≠ config.startingBlockNumber) :
    Recorded config s' ∧ RecordedBy tx.env.timestamp s' := by
  rcases exec_eq_ok hexec with ⟨next, outputRoot, hnext, hroot, rfl⟩ |
    ⟨proposal, previous, hcall, hprevious, rfl⟩ | ⟨hlatest, houtputs⟩
  · refine ⟨h.propose hnow hnext hroot, fun b => ?_⟩
    by_cases heq : b = next
    · rw [heq]
      simp
    · simp only [update_of_ne heq]
      exact hnow b
  · refine ⟨h.delete hinterval hprevious (hkept (by rw [hcall]; rfl)), fun b => ?_⟩
    by_cases heq : b = s.latestBlockNumber
    · rw [heq]
      simp only [update_self]
      exact zero_le _
    · simp only [update_of_ne heq]
      exact hnow b
  · constructor
    · constructor
      · rw [hlatest]
        exact h.latest
      · rw [hlatest, houtputs]
        exact h.stored
      · rw [hlatest, houtputs]
        exact h.absent
      · rw [hlatest, houtputs]
        exact h.ordered
    · intro b
      rw [houtputs]
      exact hnow b

omit [DecidableEq H] in
theorem recorded_construct {deploy : Env H} {genesisL2Output : H} {proposer owner : Address}
    (h : construct config deploy genesisL2Output proposer owner = .ok s)
    (hgenesis : genesisL2Output ≠ 0) : Recorded config s ∧ RecordedBy deploy.timestamp s := by
  simp only [construct, initializeStorage, changeProposer, bind_eq_ok, pure_eq_ok] at h
  obtain ⟨-, -, -, -, ⟨s₁, events⟩, ⟨-, -, -, -, -, -, heq⟩, rfl⟩ := h
  obtain ⟨rfl, -⟩ := Prod.mk.inj heq
  have hcheck : ∀ b, IsCheckpoint config config.startingBlockNumber b ↔
      b = config.startingBlockNumber := by
    intro b
    constructor
    · rintro ⟨hge, hle, -⟩
      exact BitVec.eq_of_toNat_eq (by omega)
    · rintro rfl
      exact ⟨le_refl _, le_refl _, by rw [Nat.sub_self]; exact dvd_zero _⟩
  refine ⟨⟨(hcheck _).mpr rfl, ?_, ?_, ?_⟩, ?_⟩
  · intro b hb
    rw [(hcheck b).mp hb]
    simpa using hgenesis
  · intro b hb
    have hne : b ≠ config.startingBlockNumber := fun heq => hb ((hcheck b).mpr heq)
    simp only [update_of_ne hne]
  · intro b c hb hc _
    rw [(hcheck b).mp hb, (hcheck c).mp hc]
    exact BitVec.le_refl _
  · intro b
    by_cases heq : b = config.startingBlockNumber
    · rw [heq]
      simp
    · simp only [update_of_ne heq]
      exact zero_le _

theorem Recorded.states (hinterval : 0 < config.submissionInterval.toNat) {txs : List (Tx H)}
    (h : Recorded config s) (hnow : RecordedBy now s) (htimes : Chronological now txs)
    (hkept : ∀ tr ∈ trace (L2OutputOracle.exec config) s txs, tr.tx.call.isDelete →
      tr.pre.latestBlockNumber ≠ config.startingBlockNumber) :
    ∀ s' ∈ Transactions.states (L2OutputOracle.exec config) s txs, Recorded config s' := by
  induction txs generalizing s now with
  | nil =>
    intro s' hmem
    rw [List.mem_singleton.mp hmem]
    exact h
  | cons tx txs ih =>
    obtain ⟨hle, htimes⟩ := htimes
    intro s' hmem
    rcases List.mem_cons.mp hmem with rfl | hmem
    · exact h
    · have hlater : RecordedBy tx.env.timestamp s := fun b => BitVec.le_trans (hnow b) hle
      rw [trace] at hkept
      cases hexec : L2OutputOracle.exec config s tx with
      | error =>
        rw [(step_error hexec).1] at hmem
        rw [(step_error hexec).1, (step_error hexec).2] at hkept
        exact ih h hlater htimes hkept s' hmem
      | ok r =>
        rw [(step_ok hexec).1] at hmem
        rw [(step_ok hexec).1, (step_ok hexec).2] at hkept
        have hthis := hkept ⟨s, tx, r.1, r.2⟩ (by simp)
        obtain ⟨hnext, hnextNow⟩ := h.exec hinterval hlater hexec hthis
        refine ih hnext hnextNow htimes (fun tr htr => hkept tr ?_) s' hmem
        exact List.mem_append_right _ htr

/-- The promises of the oracle hold throughout a run exactly if the output of the starting block
is never deleted. -/
theorem outputs_valid_iff {deploy : Env H} {genesisL2Output : H} {proposer owner : Address}
    (hdeploy : construct config deploy genesisL2Output proposer owner = .ok s)
    (hgenesis : genesisL2Output ≠ 0) (hinterval : 0 < config.submissionInterval)
    (txs : List (Tx H)) (htimes : Chronological deploy.timestamp txs) :
    (∀ s' ∈ Transactions.states (L2OutputOracle.exec config) s txs, OutputsValid config s') ↔
      ∀ tr ∈ trace (L2OutputOracle.exec config) s txs, tr.tx.call.isDelete →
        tr.pre.latestBlockNumber ≠ config.startingBlockNumber := by
  have hpos : 0 < config.submissionInterval.toNat := hinterval
  obtain ⟨hrecorded, hnow⟩ := recorded_construct hdeploy hgenesis
  constructor
  · intro hvalid tr htr hdelete heq
    obtain ⟨hok, us, vs, rfl, hpre⟩ := mem_trace htr
    have hpost : tr.post ∈ Transactions.states (L2OutputOracle.exec config) s
        (us ++ tr.tx :: vs) := by
      have hmem := run_mem_states (L2OutputOracle.exec config) s (us ++ [tr.tx]) vs
      rw [run_concat, ← hpre, (step_ok hok).1, List.append_assoc] at hmem
      exact hmem
    have hstart := (hvalid tr.post hpost).start_le
    cases hcall : tr.tx.call with
    | deleteL2Output =>
      simp only [L2OutputOracle.exec, hcall] at hok
      obtain ⟨previous, hprevious, hs'⟩ := deleteL2Output_eq_ok hok
      rw [hs', heq.symm] at hstart
      have hle : tr.pre.latestBlockNumber.toNat ≤ previous.toNat := hstart
      omega
    | _ =>
      rw [hcall] at hdelete
      cases hdelete
  · intro hkept s' hmem
    exact (hrecorded.states hpos hnow htimes hkept s' hmem).outputsValid hpos

end Checkpoints

def tenConfig : Config where
  submissionInterval := 10
  startingBlockNumber := 100
  startingTimestamp := 1000
  l2BlockTime := 2

def tenEnv (sender : Address) (timestamp : Uint256) : Env Bytes32 where
  sender
  timestamp
  blockhash := fun _ => 0

def tenOracle : Storage Bytes32 where
  owner := 3
  proposer := 2
  latestBlockNumber := 100
  l2Outputs := Function.update (fun _ => .absent) 100 ⟨0xaa, 1000⟩

theorem construct_tenOracle :
    construct tenConfig (tenEnv 1 1000) (0xaa : Bytes32) 2 3 = .ok tenOracle := rfl

def tenTxs : List (Tx Bytes32) :=
  [⟨tenEnv 2 1100, .proposeL2Output 0xbb 110 0 0⟩, ⟨tenEnv 3 1200, .deleteL2Output ⟨0xbb, 1100⟩⟩]

theorem outputs_valid_sample :
    construct tenConfig (tenEnv 1 1000) (0xaa : Bytes32) 2 3 = .ok tenOracle ∧
      ∀ s ∈ Transactions.states (exec tenConfig) tenOracle tenTxs, OutputsValid tenConfig s := by
  refine ⟨construct_tenOracle, (outputs_valid_iff construct_tenOracle (by decide) (by decide)
    tenTxs ⟨by decide, by decide, trivial⟩).mpr ?_⟩
  decide +kernel

theorem starting_output_deleted :
    construct tenConfig (tenEnv 1 1000) (0xaa : Bytes32) 2 3 = .ok tenOracle ∧
      Chronological (1000 : Uint256)
        [(⟨tenEnv 3 1200, .deleteL2Output ⟨0xaa, 1000⟩⟩ : Tx Bytes32)] ∧
      (run (exec tenConfig) tenOracle
        [⟨tenEnv 3 1200, .deleteL2Output ⟨0xaa, 1000⟩⟩]).latestBlockNumber = 90 ∧
      ¬ ∀ s ∈ Transactions.states (exec tenConfig) tenOracle
        [⟨tenEnv 3 1200, .deleteL2Output ⟨0xaa, 1000⟩⟩], OutputsValid tenConfig s := by
  refine ⟨rfl, ⟨by decide, trivial⟩, by decide +kernel, fun hvalid => ?_⟩
  have hlast := (hvalid _ (run_mem_states (exec tenConfig) tenOracle
    [⟨tenEnv 3 1200, .deleteL2Output ⟨0xaa, 1000⟩⟩] [])).start_le
  revert hlast
  decide +kernel

end L2OutputOracle

end Portal
