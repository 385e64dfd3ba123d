import TokamakTitan.Batch.RoundTrip
import TokamakTitan.Batch.Ingestion

/-! The expansion loop of the ingestion handler turns the contexts of a batch back into its
elements, in order. -/
namespace DataTransportLayer
open BatchSubmitter CoreUtils List

def queueCount (els : List BatchElement) : ℕ := els.countP fun el => el.tx.isNone

/-- The entry at position `i` of a batch, with `q` queue elements before it, stands for `el`. -/
structure EntryOf (event : SequencerBatchAppendedEvent) (prevTotalElements i q : ℕ)
    (el : BatchElement) (entry : TransactionEntry) : Prop where
  index : entry.index = prevTotalElements + i
  queueOrigin : entry.queueOrigin = .sequencer ↔ el.tx.isSome
  timestamp : entry.timestamp = el.timestamp
  sequenced : ∀ tx, el.tx = some tx → entry.data = tx.rawTx ∧ entry.blockNumber = el.blockNumber
  queued : el.tx = none → entry.queueIndex = some (event.startingQueueIndex + q)

def Expanded (event : SequencerBatchAppendedEvent) (prevTotalElements : ℕ)
    (els : List BatchElement) (entries : List TransactionEntry) : Prop :=
  entries.length = els.length ∧ ∀ i el, els[i]? = some el →
    ∃ entry, entries[i]? = some entry ∧
      EntryOf event prevTotalElements i (queueCount (els.take i)) el entry

/-- The ethers codec is the identity on the raw transactions of the batch, and no number leaves the
safe integers. -/
structure Ingestible (ethers : Ethers) (event : SequencerBatchAppendedEvent)
    (extraData : SequencerBatchAppendedExtraData) (batch : List BatchElement) : Prop where
  codec : ∀ el ∈ batch, ∀ tx, el.tx = some tx →
    ∃ t, ethers.parse tx.rawTx = some t ∧ ethers.serializeTransaction t = tx.rawTx
  prevTotalElements : extraData.prevTotalElements + batch.length ≤ 2 ^ 53
  startingQueueIndex : ∀ q < queueCount batch, event.startingQueueIndex + q < 2 ^ 53
  batchIndex : extraData.batchIndex < 2 ^ 53
  batchSize : extraData.batchSize < 2 ^ 53

structure Expansion.Inv (event : SequencerBatchAppendedEvent) (prevTotalElements : ℕ)
    (s : Expansion) (done : List BatchElement) : Prop where
  entries : Expanded event prevTotalElements done s.transactionEntries
  transactionIndex : s.transactionIndex = done.length
  enqueuedCount : s.enqueuedCount = queueCount done
  index : s.index = (done.filterMap BatchElement.tx).length

variable {ethers : Ethers} {event : SequencerBatchAppendedEvent}
  {extraData : SequencerBatchAppendedExtraData} {l2ChainId : ℕ} {batch : List BatchElement}

theorem Ingestible.withData (h : Ingestible ethers event extraData batch) (data : Bytes) :
    Ingestible ethers event {extraData with l1TransactionData := data} batch :=
  ⟨h.codec, h.prevTotalElements, h.startingQueueIndex, h.batchIndex, h.batchSize⟩

theorem Expansion.inv_init (prevTotalElements : ℕ) :
    Expansion.Inv event prevTotalElements ⟨[], 0, 0, 0⟩ [] :=
  ⟨⟨rfl, by simp⟩, rfl, rfl, rfl⟩

variable {done : List BatchElement} {el : BatchElement}

theorem Expanded.concat {prevTotalElements : ℕ} {entries : List TransactionEntry}
    {entry : TransactionEntry} (h : Expanded event prevTotalElements done entries)
    (he : EntryOf event prevTotalElements done.length (queueCount done) el entry) :
    Expanded event prevTotalElements (done ++ [el]) (entries ++ [entry]) := by
  refine ⟨by simp [h.1], fun i e hi => ?_⟩
  rcases Nat.lt_trichotomy i done.length with hlt | heq | hgt
  · rw [getElem?_append_left hlt] at hi
    obtain ⟨entry', hget, hof⟩ := h.2 i e hi
    refine ⟨entry', ?_, ?_⟩
    · rw [getElem?_append_left (by rw [h.1]; exact hlt), hget]
    · rwa [take_append_of_le_length hlt.le]
  · subst heq
    rw [getElem?_concat_length] at hi
    obtain rfl := Option.some.inj hi
    refine ⟨entry, ?_, ?_⟩
    · rw [← h.1, getElem?_concat_length]
    · rwa [take_left]
  · rw [getElem?_eq_none (by simp; omega)] at hi
    cases hi

theorem toNumber_ok {n : ℕ} (h : n < 2 ^ 53) : toNumber n = .ok n := Checked.safeNumber_of_lt h

variable {rest : List BatchElement}

theorem queueCount_lt (htx : el.tx = none) : queueCount done < queueCount (done ++ el :: rest) := by
  simp [queueCount, htx]

variable {s : Expansion} {context : Context}

theorem pushQueued_inv (hok : Ingestible ethers event extraData batch)
    (hbatch : batch = done ++ el :: rest) (hs : s.Inv event extraData.prevTotalElements done)
    (htx : el.tx = none) (htime : context.timestamp = el.timestamp) :
    ∃ s', pushQueued event extraData context s = .ok s' ∧
      s'.Inv event extraData.prevTotalElements (done ++ [el]) := by
  have hlen : batch.length = done.length + (rest.length + 1) := by simp [hbatch]
  have hp := hok.prevTotalElements
  have hentry : EntryOf event extraData.prevTotalElements done.length (queueCount done) el
      (enqueuedEntry (extraData.prevTotalElements + s.transactionIndex) extraData.batchIndex
        (event.startingQueueIndex + s.enqueuedCount) context) :=
    ⟨by rw [hs.transactionIndex]; rfl, by simp [htx, enqueuedEntry], htime, by simp [htx],
      fun _ => by rw [hs.enqueuedCount]; rfl⟩
  have hindex : extraData.prevTotalElements + s.transactionIndex < 2 ^ 53 := by
    rw [hs.transactionIndex]; omega
  have hqueue : event.startingQueueIndex + s.enqueuedCount < 2 ^ 53 := by
    rw [hs.enqueuedCount]
    exact hok.startingQueueIndex _ (by rw [hbatch]; exact queueCount_lt htx)
  refine ⟨⟨s.transactionEntries ++ [_], s.transactionIndex + 1, s.enqueuedCount + 1, s.index⟩,
    ?_, hs.entries.concat hentry, ?_, ?_, ?_⟩
  · rw [pushQueued, toNumber_ok hindex, toNumber_ok hok.batchIndex, toNumber_ok hqueue]
    rfl
  · simp [hs.transactionIndex]
  · simp [hs.enqueuedCount, queueCount, htx]
  · simp [hs.index, htx]

theorem pushSequenced_inv {tx : CachedTx} (hok : Ingestible ethers event extraData batch)
    (hbatch : batch = done ++ el :: rest) (hs : s.Inv event extraData.prevTotalElements done)
    (htx : el.tx = some tx) (htime : context.timestamp = el.timestamp)
    (hnum : context.blockNumber = el.blockNumber) :
    ∃ s', pushSequenced ethers extraData l2ChainId
        ((batch.filterMap BatchElement.tx).map CachedTx.toBatchedTx) context s = .ok s' ∧
      s'.Inv event extraData.prevTotalElements (done ++ [el]) := by
  have hlen : batch.length = done.length + (rest.length + 1) := by simp [hbatch]
  have hp := hok.prevTotalElements
  obtain ⟨t, hparse, hser⟩ := hok.codec el (by simp [hbatch]) tx htx
  have hget : ((batch.filterMap BatchElement.tx).map CachedTx.toBatchedTx)[s.index]? =
      some tx.toBatchedTx := by
    rw [hs.index, hbatch, filterMap_append, map_append, getElem?_append_right (by simp)]
    simp [htx]
  have hentry : EntryOf event extraData.prevTotalElements done.length (queueCount done) el
      (sequencerEntry ethers l2ChainId (extraData.prevTotalElements + s.transactionIndex)
        extraData.batchIndex context t) :=
    ⟨by rw [hs.transactionIndex]; rfl, by simp [htx, sequencerEntry], htime,
      fun tx' h => by rw [htx] at h; cases h; exact ⟨hser, hnum⟩, by simp [htx]⟩
  have hindex : extraData.prevTotalElements + s.transactionIndex < 2 ^ 53 := by
    rw [hs.transactionIndex]; omega
  refine ⟨⟨s.transactionEntries ++ [_], s.transactionIndex + 1, s.enqueuedCount, s.index + 1⟩,
    ?_, hs.entries.concat hentry, ?_, ?_, ?_⟩
  · simp only [pushSequenced, hget, CachedTx.toBatchedTx, hparse]
    rw [toNumber_ok hindex, toNumber_ok hok.batchIndex]
    rfl
  · simp [hs.transactionIndex]
  · simp [hs.enqueuedCount, queueCount, htx]
  · simp [hs.index, htx]

theorem iterate_inv (body : Expansion → Except ParseError Expansion) {batch els : List BatchElement}
    (hbody : ∀ done' el rest' s, el ∈ els → batch = done' ++ el :: rest' → s.Inv event
      extraData.prevTotalElements done' → ∃ s', body s = .ok s' ∧ s'.Inv event
      extraData.prevTotalElements (done' ++ [el])) (hbatch : batch = done ++ (els ++ rest))
    (hs : s.Inv event extraData.prevTotalElements done) :
    ∃ s', iterate body els.length s = .ok s' ∧
      s'.Inv event extraData.prevTotalElements (done ++ els) := by
  induction els generalizing done s with
  | nil => exact ⟨s, rfl, by simpa using hs⟩
  | cons el els ih =>
    obtain ⟨s', hstep, hs'⟩ := hbody done el (els ++ rest) s (by simp) hbatch hs
    obtain ⟨s'', hrun, hs''⟩ := ih (fun done' e rest' s he => hbody done' e rest' s (by simp [he]))
      (by rw [hbatch]; simp) hs'
    refine ⟨s'', ?_, by simpa using hs''⟩
    simp only [length_cons, iterate, hstep]
    exact hrun

theorem expandContexts_inv (l2ChainId : ℕ) {batch : List BatchElement} (rest : List BatchElement)
    {cs : List BatchContext} {gs : List GroupedBlock}
    (hok : Ingestible ethers event extraData batch) (hof : Forall₂ BatchContext.Of cs gs)
    (hbatch : batch = done ++ (gs.flatMap GroupedBlock.elements ++ rest))
    (hs : s.Inv event extraData.prevTotalElements done) :
    ∃ s', expandContexts ethers event extraData l2ChainId
        ((batch.filterMap BatchElement.tx).map CachedTx.toBatchedTx)
        (cs.map BatchContext.toContext) s = .ok s' ∧
      s'.Inv event extraData.prevTotalElements (done ++ gs.flatMap GroupedBlock.elements) := by
  induction hof generalizing done s with
  | nil => exact ⟨s, rfl, by simpa using hs⟩
  | @cons c g cs gs hc _ ih =>
    have hsplit : batch = done ++ (g.sequenced ++
        (g.queued ++ (gs.flatMap GroupedBlock.elements ++ rest))) := by
      rw [hbatch]
      simp [GroupedBlock.elements]
    obtain ⟨s₁, hseq, hs₁⟩ := iterate_inv (pushSequenced ethers extraData l2ChainId
        ((batch.filterMap BatchElement.tx).map CachedTx.toBatchedTx) c.toContext)
      (fun done' el rest' s' he hb hs' => by
        obtain ⟨hsome, ht, hn⟩ := hc.describes.sequenced el he
        obtain ⟨tx, htx⟩ := Option.isSome_iff_exists.mp hsome
        exact pushSequenced_inv hok hb hs' htx ht.symm hn.symm) hsplit hs
    obtain ⟨s₂, hque, hs₂⟩ := iterate_inv (pushQueued event extraData c.toContext)
      (fun done' el rest' s' he hb hs' => by
        obtain ⟨hnone, ht⟩ := hc.describes.queued el he
        exact pushQueued_inv hok hb hs' hnone ht.symm)
      (by rw [hsplit, append_assoc]) hs₁
    obtain ⟨s₃, hrun, hs₃⟩ := ih (by rw [hbatch]; simp [GroupedBlock.elements]) hs₂
    refine ⟨s₃, ?_, by simpa [GroupedBlock.elements] using hs₃⟩
    simp only [map_cons, expandContexts, BatchContext.toContext, hc.numSequencedTxs,
      hc.numSubsequentQueueTxs] at hseq hque hrun ⊢
    rw [hseq]
    simp only [bind, Except.bind]
    rw [hque]
    exact hrun

end DataTransportLayer
