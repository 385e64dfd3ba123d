import TokamakTitan.Batch.Encoding
import Mathlib.Data.List.ModifyLast

/-! What the grouping loop guarantees: the groups, read in order, are the batch, and one context
describes every element of its group. -/
namespace BatchSubmitter
open List

def GroupedBlock.elements (g : GroupedBlock) : List BatchElement := g.sequenced ++ g.queued

/-- Every element agrees with the timestamp, and every sequencer transaction with the block number;
sequencer transactions come first. -/
structure GroupedBlock.Describes (g : GroupedBlock) (timestamp blockNumber : ℕ) : Prop where
  sequenced : ∀ e ∈ g.sequenced, e.tx.isSome ∧ e.timestamp = timestamp ∧ e.blockNumber = blockNumber
  queued : ∀ e ∈ g.queued, e.tx = none ∧ e.timestamp = timestamp

/-- The invariant of the grouping loop when it has handled `done` and then `el`. The last group is
still open. -/
structure Grouping.Inv (s : Grouping) (done : List BatchElement) (el : BatchElement) : Prop where
  elements : s.groupedBlocks.flatMap GroupedBlock.elements = done ++ [el]
  txs : s.txs = (done ++ [el]).filterMap BatchElement.tx
  describes : ∀ g ∈ s.groupedBlocks, g.elements ≠ [] ∧ ∃ t n, g.Describes t n
  last : s.lastBlockIsSequencerTx = el.isSequencerTx ∧ s.lastTimestamp = el.timestamp ∧
    s.lastBlockNumber = el.blockNumber
  isOpen : ∃ closed g n, s.groupedBlocks = closed ++ [g] ∧ g.Describes el.timestamp n ∧
    (el.tx.isSome → n = el.blockNumber ∧ g.queued = [])

theorem GroupedBlock.append_empty_describes (el : BatchElement) :
    ((⟨[], []⟩ : GroupedBlock).append el).Describes el.timestamp el.blockNumber := by
  unfold GroupedBlock.append BatchElement.isSequencerTx
  cases h : el.tx with
  | none => exact ⟨by simp, by simp [h]⟩
  | some => exact ⟨by simp [h], by simp⟩

theorem GroupedBlock.append_empty_elements (el : BatchElement) :
    ((⟨[], []⟩ : GroupedBlock).append el).elements = [el] := by
  unfold GroupedBlock.append GroupedBlock.elements
  split <;> rfl

variable {el : BatchElement} {g : GroupedBlock}

theorem GroupedBlock.append_elements (h : el.tx.isSome → g.queued = []) :
    (g.append el).elements = g.elements ++ [el] := by
  unfold GroupedBlock.append GroupedBlock.elements BatchElement.isSequencerTx
  split
  next hs => simp [h hs]
  next => simp

theorem GroupedBlock.append_describes {t n : ℕ} (hg : g.Describes t n) (ht : el.timestamp = t)
    (hn : el.tx.isSome → el.blockNumber = n) : (g.append el).Describes t n := by
  unfold GroupedBlock.append BatchElement.isSequencerTx
  split
  next hs =>
    refine ⟨fun e he => ?_, hg.queued⟩
    rcases mem_append.mp he with he | he
    · exact hg.sequenced e he
    · rw [mem_singleton.mp he]
      exact ⟨hs, ht, hn hs⟩
  next hs =>
    refine ⟨hg.sequenced, fun e he => ?_⟩
    rcases mem_append.mp he with he | he
    · exact hg.queued e he
    · rw [mem_singleton.mp he]
      exact ⟨by simpa using hs, ht⟩

theorem GroupedBlock.append_queued (h : el.tx.isSome) : (g.append el).queued = g.queued := by
  simp [GroupedBlock.append, BatchElement.isSequencerTx, h]

variable {s : Grouping}

theorem Grouping.step_groupedBlocks_new (h : s.needsNewGroup el = true) :
    (s.step el).groupedBlocks = s.groupedBlocks ++ [(⟨[], []⟩ : GroupedBlock).append el] := by
  simp [Grouping.step, h, modifyLast_concat]

theorem Grouping.step_groupedBlocks_join {closed : List GroupedBlock}
    (hs : s.groupedBlocks = closed ++ [g]) (h : s.needsNewGroup el = false) :
    (s.step el).groupedBlocks = closed ++ [g.append el] := by
  simp [Grouping.step, h, hs, modifyLast_concat]

theorem Grouping.step_txs (s : Grouping) (el : BatchElement) :
    (s.step el).txs = s.txs ++ [el].filterMap BatchElement.tx := by
  cases h : el.tx <;> simp [Grouping.step, h]

variable {done : List BatchElement}

theorem Grouping.step_new (hel : s.groupedBlocks.flatMap GroupedBlock.elements = done)
    (htx : s.txs = done.filterMap BatchElement.tx)
    (hd : ∀ g ∈ s.groupedBlocks, g.elements ≠ [] ∧ ∃ t n, g.Describes t n)
    (h : s.needsNewGroup el = true) : (s.step el).Inv done el := by
  have hg := Grouping.step_groupedBlocks_new h
  refine ⟨?_, ?_, ?_, ⟨rfl, rfl, rfl⟩, ?_⟩
  · simp [hg, hel, GroupedBlock.append_empty_elements]
  · rw [Grouping.step_txs, htx, ← filterMap_append]
  · intro g hm
    rw [hg] at hm
    rcases mem_append.mp hm with hm | hm
    · exact hd g hm
    · rw [mem_singleton.mp hm]
      exact ⟨by simp [GroupedBlock.append_empty_elements], _, _,
        GroupedBlock.append_empty_describes el⟩
  · exact ⟨_, _, el.blockNumber, hg, GroupedBlock.append_empty_describes el,
      fun hs => ⟨rfl, by rw [GroupedBlock.append_queued hs]⟩⟩

variable {prev : BatchElement}

theorem Grouping.step_join (hi : s.Inv done prev) (h : s.needsNewGroup el = false) :
    (s.step el).Inv (done ++ [prev]) el := by
  obtain ⟨closed, g, n, hs, hg, hopen⟩ := hi.isOpen
  obtain ⟨hlast, htime, hnum⟩ := hi.last
  have hstep := Grouping.step_groupedBlocks_join hs h
  simp only [Grouping.needsNewGroup, hlast, htime, hnum, BatchElement.isSequencerTx,
    Bool.or_eq_false_iff, bne_eq_false_iff_eq, Bool.and_eq_false_imp, Bool.not_eq_false'] at h
  obtain ⟨⟨-, ht⟩, hseq⟩ := h
  have hn : el.tx.isSome → el.blockNumber = n := fun hs =>
    (hseq hs).2.trans (hopen (hseq hs).1).1.symm
  have hq : el.tx.isSome → g.queued = [] := fun hs => (hopen (hseq hs).1).2
  have hdesc : (g.append el).Describes el.timestamp n :=
    GroupedBlock.append_describes (ht ▸ hg) rfl hn
  have helem := GroupedBlock.append_elements hq
  refine ⟨?_, ?_, ?_, ⟨rfl, rfl, rfl⟩, ?_⟩
  · rw [← hi.elements, hstep, hs]
    simp [helem]
  · rw [Grouping.step_txs, hi.txs, ← filterMap_append]
  · intro g' hm
    rw [hstep] at hm
    rcases mem_append.mp hm with hm | hm
    · exact hi.describes g' (by rw [hs]; exact mem_append_left _ hm)
    · rw [mem_singleton.mp hm]
      exact ⟨by simp [helem], _, _, hdesc⟩
  · exact ⟨_, _, n, hstep, hdesc,
      fun hsome => ⟨(hn hsome).symm, by rw [GroupedBlock.append_queued hsome, hq hsome]⟩⟩

theorem Grouping.step_inv (hi : s.Inv done prev) : (s.step el).Inv (done ++ [prev]) el := by
  cases h : s.needsNewGroup el with
  | false => exact Grouping.step_join hi h
  | true => exact Grouping.step_new hi.elements hi.txs hi.describes h

theorem groupBatch_inv (done : List BatchElement) (el : BatchElement) :
    (groupBatch (done ++ [el])).Inv done el := by
  induction done using reverseRecOn generalizing el with
  | nil => exact Grouping.step_new rfl rfl (by simp [Grouping.init]) rfl
  | append_singleton done prev ih =>
    rw [groupBatch, foldl_append]
    exact Grouping.step_inv (ih prev)

variable (batch : List BatchElement)

theorem groupBatch_elements :
    (groupBatch batch).groupedBlocks.flatMap GroupedBlock.elements = batch := by
  cases batch using reverseRecOn with
  | nil => rfl
  | append_singleton done el => exact (groupBatch_inv done el).elements

theorem groupBatch_txs : (groupBatch batch).txs = batch.filterMap BatchElement.tx := by
  cases batch using reverseRecOn with
  | nil => rfl
  | append_singleton done el => exact (groupBatch_inv done el).txs

theorem groupBatch_describes :
    ∀ g ∈ (groupBatch batch).groupedBlocks, g.elements ≠ [] ∧ ∃ t n, g.Describes t n := by
  cases batch using reverseRecOn with
  | nil => simp [groupBatch, Grouping.init]
  | append_singleton done el => exact (groupBatch_inv done el).describes

structure BatchContext.Of (c : BatchContext) (g : GroupedBlock) : Prop where
  numSequencedTxs : c.numSequencedTxs = g.sequenced.length
  numSubsequentQueueTxs : c.numSubsequentQueueTxs = g.queued.length
  describes : g.Describes c.timestamp c.blockNumber
  source : ∃ e ∈ g.elements, c.timestamp = e.timestamp ∧ c.blockNumber = e.blockNumber

theorem GroupedBlock.context_of {t n : ℕ} (hne : g.elements ≠ []) (hg : g.Describes t n) :
    ∃ c, g.context = .ok c ∧ c.Of g := by
  obtain ⟨sequenced, queued⟩ := g
  cases sequenced with
  | cons s =>
    obtain ⟨-, ht, hn⟩ := hg.sequenced s (by simp)
    exact ⟨_, rfl, rfl, rfl, by simpa [ht, hn] using hg, s, by simp [elements], rfl, rfl⟩
  | nil =>
    cases queued with
    | nil => simp [elements] at hne
    | cons q =>
      obtain ⟨-, ht⟩ := hg.queued q (by simp)
      refine ⟨_, rfl, rfl, rfl, ⟨by simp, ?_⟩, q, by simp [elements], rfl, rfl⟩
      intro e he
      exact ⟨(hg.queued e he).1, (hg.queued e he).2.trans ht.symm⟩

theorem mapM_context {gs : List GroupedBlock}
    (h : ∀ g ∈ gs, g.elements ≠ [] ∧ ∃ t n, g.Describes t n) :
    ∃ cs, gs.mapM GroupedBlock.context = .ok cs ∧ Forall₂ BatchContext.Of cs gs := by
  induction gs with
  | nil => exact ⟨[], rfl, .nil⟩
  | cons g gs ih =>
    obtain ⟨hne, t, n, hg⟩ := h g (by simp)
    obtain ⟨c, hc, hof⟩ := GroupedBlock.context_of hne hg
    obtain ⟨cs, hcs, hofs⟩ := ih fun g' hg' => h g' (by simp [hg'])
    exact ⟨c :: cs, by simp [hc, hcs]; rfl, .cons hof hofs⟩

theorem genSequencerBatchParams_spec (shouldStartAtElement blockOffset : ℕ)
    (batch : List BatchElement) :
    ∃ p, genSequencerBatchParams shouldStartAtElement blockOffset batch = .ok p ∧
      p.shouldStartAtElement = (shouldStartAtElement + 2 ^ 64 - blockOffset) % 2 ^ 64 ∧
      p.totalElementsToAppend = batch.length ∧
      Forall₂ BatchContext.Of p.contexts (groupBatch batch).groupedBlocks ∧
      p.txs = batch.filterMap BatchElement.tx := by
  obtain ⟨cs, hcs, hof⟩ := mapM_context (groupBatch_describes batch)
  refine ⟨_, by simp only [genSequencerBatchParams, hcs]; rfl, rfl, rfl, hof, ?_⟩
  exact groupBatch_txs batch

end BatchSubmitter
