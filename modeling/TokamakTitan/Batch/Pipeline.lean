import TokamakTitan.Batch.Expansion

/-! The batch pipeline end to end: group, encode and post in Go, decode in TypeScript, expand in
the data transport layer. -/
namespace BatchPipeline
open BatchSubmitter CoreUtils DataTransportLayer List

structure Representable (batch : List BatchElement) : Prop where
  nonempty : batch ≠ []
  count : batch.length < 2 ^ 24
  timestamp : ∀ el ∈ batch, el.timestamp ≠ 0 ∧ el.timestamp < 2 ^ 40
  blockNumber : ∀ el ∈ batch, el.blockNumber < 2 ^ 40
  size : ∀ el ∈ batch, ∀ tx, el.tx = some tx → tx.size < 2 ^ 24

/-- Posting the batch and ingesting the event yields the entries of the batch. -/
def Lossless (zlib : Zlib) (ethers : Ethers) (batchType : BatchType)
    (shouldStartAtElement blockOffset : ℕ) (event : SequencerBatchAppendedEvent)
    (extraData : SequencerBatchAppendedExtraData) (l2ChainId : ℕ)
    (batch : List BatchElement) : Prop :=
  ∃ params bytes parsed,
    genSequencerBatchParams shouldStartAtElement blockOffset batch = .ok params ∧
    params.serialize zlib batchType = .ok bytes ∧
    parseEvent zlib ethers event
      {extraData with l1TransactionData := FOUR_BYTE_APPEND_SEQUENCER_BATCH ++ bytes}
      l2ChainId = .ok parsed ∧
    Expanded event extraData.prevTotalElements batch parsed.transactionEntries

variable {els : List BatchElement}

theorem filterMap_tx_sequenced (h : ∀ e ∈ els, e.tx.isSome) :
    (els.filterMap BatchElement.tx).length = els.length := by
  induction els with
  | nil => rfl
  | cons e els ih =>
    obtain ⟨tx, htx⟩ := Option.isSome_iff_exists.mp (h e (by simp))
    simp [htx, ih fun e' he' => h e' (by simp [he'])]

theorem filterMap_tx_queued (h : ∀ e ∈ els, e.tx = none) : els.filterMap BatchElement.tx = [] := by
  rw [filterMap_eq_nil_iff]
  exact h

theorem sum_numSequencedTxs {cs : List BatchContext} {gs : List GroupedBlock}
    (h : Forall₂ BatchContext.Of cs gs) :
    (cs.map BatchContext.numSequencedTxs).sum =
      ((gs.flatMap GroupedBlock.elements).filterMap BatchElement.tx).length := by
  induction h with
  | nil => rfl
  | cons hc _ ih =>
    have hs := filterMap_tx_sequenced fun e he => (hc.describes.sequenced e he).1
    have hq := filterMap_tx_queued fun e he => (hc.describes.queued e he).1
    simp only [map_cons, sum_cons, flatMap_cons, filterMap_append,
      length_append, GroupedBlock.elements, hs, hq, ih, hc.numSequencedTxs, length_nil,
      Nat.add_zero]

variable {batch : List BatchElement} {g : GroupedBlock}

theorem elements_length_le (hg : g ∈ (groupBatch batch).groupedBlocks) :
    g.sequenced.length ≤ batch.length ∧ g.queued.length ≤ batch.length := by
  have hsub : g.elements.Sublist batch := by
    have h := sublist_flatten_of_mem (mem_map_of_mem (f := GroupedBlock.elements) hg)
    rwa [← flatMap_def, groupBatch_elements] at h
  have hlen := hsub.length_le
  rw [GroupedBlock.elements, length_append] at hlen
  omega

theorem context_fits (h : Representable batch) {c : BatchContext}
    (hg : g ∈ (groupBatch batch).groupedBlocks) (hc : c.Of g) : c.Fits ∧ c.timestamp ≠ 0 := by
  obtain ⟨e, he, ht, hn⟩ := hc.source
  have hmem : e ∈ batch := by
    rw [← groupBatch_elements batch]
    exact mem_flatMap.mpr ⟨g, hg, he⟩
  obtain ⟨hs, hq⟩ := elements_length_le hg
  have hlen := h.count
  refine ⟨⟨?_, ?_, ?_, ?_⟩, ?_⟩
  · rw [hc.numSequencedTxs]; omega
  · rw [hc.numSubsequentQueueTxs]; omega
  · rw [ht]; exact (h.timestamp e hmem).2
  · rw [hn]; exact h.blockNumber e hmem
  · rw [ht]; exact (h.timestamp e hmem).1

variable {batchType : BatchType}

theorem params_fits {p : AppendSequencerBatchParams} (h : Representable batch)
    (hstart : p.shouldStartAtElement < 2 ^ 40) (htotal : p.totalElementsToAppend = batch.length)
    (hof : Forall₂ BatchContext.Of p.contexts (groupBatch batch).groupedBlocks)
    (htxs : p.txs = batch.filterMap BatchElement.tx)
    (hcount : batchType.markerContext.length + (groupBatch batch).groupedBlocks.length < 2 ^ 24) :
    p.Fits batchType := by
  have hcontext : ∀ c ∈ p.contexts, c.Fits ∧ c.timestamp ≠ 0 := by
    intro c hc
    obtain ⟨i, hi⟩ := mem_iff_get.mp hc
    have hg := (forall₂_iff_get.mp hof).2 i i.isLt ((forall₂_iff_get.mp hof).1 ▸ i.isLt)
    rw [← hi]
    exact context_fits h (get_mem _ _) hg
  refine ⟨hstart, ?_, ?_, fun c hc => (hcontext c hc).1, fun c hc => (hcontext c hc).2, ?_, ?_⟩
  · rw [htotal]; exact h.count
  · rw [length_append, hof.length_eq]; exact hcount
  · intro tx htx
    rw [htxs] at htx
    obtain ⟨el, hel, heq⟩ := mem_filterMap.mp htx
    exact h.size el hel tx heq
  · rw [sum_numSequencedTxs hof, groupBatch_elements, htxs]

variable {event : SequencerBatchAppendedEvent} {ethers : Ethers} {l2ChainId : ℕ} {zlib : Zlib}
  {extraData : SequencerBatchAppendedExtraData}

theorem parseEvent_of_read {decoded : SequencerBatch} {s : Expansion}
    (hlen : 12 ≤ extraData.l1TransactionData.length)
    (hread : SequencerBatch.read zlib extraData.l1TransactionData = some decoded)
    (hrun : expandContexts ethers event extraData l2ChainId decoded.transactions decoded.contexts
      ⟨[], 0, 0, 0⟩ = .ok s) (hindex : extraData.batchIndex < 2 ^ 53)
    (hsize : extraData.batchSize < 2 ^ 53) (hprev : extraData.prevTotalElements < 2 ^ 53) :
    ∃ parsed, parseEvent zlib ethers event extraData l2ChainId = .ok parsed ∧
      parsed.transactionEntries = s.transactionEntries := by
  have hhex : ¬ hexStringLength extraData.l1TransactionData < 26 := by
    unfold hexStringLength
    omega
  simp only [parseEvent, if_neg hhex, hread, hrun, toNumber_ok hindex, toNumber_ok hsize,
    toNumber_ok hprev]
  exact ⟨_, rfl, rfl⟩

theorem parseEvent_batchIndex_lt {parsed : ParsedEvent}
    (h : parseEvent zlib ethers event extraData l2ChainId = .ok parsed) :
    extraData.batchIndex < 2 ^ 53 := by
  unfold parseEvent at h
  by_cases hlen : hexStringLength extraData.l1TransactionData < 26
  · simp only [if_pos hlen] at h
    cases h
  · simp only [if_neg hlen] at h
    split at h
    · cases h
    · obtain ⟨_, -, h⟩ := Checked.bind_eq_ok.mp h
      obtain ⟨_, hindex, -⟩ := Checked.bind_eq_ok.mp h
      exact (Checked.safeNumber_eq_ok.mp hindex).1

/-- A representable batch of either type passes the whole pipeline unchanged, as long as its
start index, its number of contexts and the event's numbers fit. -/
theorem batch_pipeline_lossless {zlib : Zlib} {ethers : Ethers}
    (hzlib : ∀ bytes, zlib.inflate (zlib.deflate bytes) = some bytes) {batchType : BatchType}
    (htype : batchType = .legacy ∨ batchType = .zlib) {shouldStartAtElement blockOffset : ℕ}
    {event : SequencerBatchAppendedEvent} {extraData : SequencerBatchAppendedExtraData}
    (l2ChainId : ℕ) {batch : List BatchElement} (hbatch : Representable batch)
    (hcount : batchType.markerContext.length + (groupBatch batch).groupedBlocks.length < 2 ^ 24)
    (hstart : (shouldStartAtElement + 2 ^ 64 - blockOffset) % 2 ^ 64 < 2 ^ 40)
    (hok : Ingestible ethers event extraData batch) :
    Lossless zlib ethers batchType shouldStartAtElement blockOffset event extraData l2ChainId
      batch := by
  obtain ⟨p, hgen, hp, htotal, hof, htxs⟩ :=
    genSequencerBatchParams_spec shouldStartAtElement blockOffset batch
  have hfits : p.Fits batchType :=
    params_fits hbatch (by rw [hp]; exact hstart) htotal hof htxs hcount
  obtain ⟨bytes, hser, hlen, hread⟩ := read_serialize hzlib htype hfits
  have hok' := hok.withData (FOUR_BYTE_APPEND_SEQUENCER_BATCH ++ bytes)
  obtain ⟨s, hrun, hs⟩ := expandContexts_inv l2ChainId [] hok' hof
    (by rw [groupBatch_elements, List.append_nil, List.nil_append]) (Expansion.inv_init _)
  rw [List.nil_append, groupBatch_elements] at hs
  have hpos := List.length_pos_of_ne_nil hbatch.nonempty
  have hprev : extraData.prevTotalElements < 2 ^ 53 := by
    have := hok.prevTotalElements
    omega
  rw [← htxs] at hrun
  have hdata : 12 ≤ (FOUR_BYTE_APPEND_SEQUENCER_BATCH ++ bytes).length := by
    simp only [FOUR_BYTE_APPEND_SEQUENCER_BATCH, List.length_append, List.length_cons]
    omega
  obtain ⟨parsed, hparse, hentries⟩ :=
    parseEvent_of_read hdata hread hrun hok'.batchIndex hok'.batchSize hprev
  refine ⟨p, bytes, parsed, hgen, hser, hparse, ?_⟩
  rw [hentries]
  exact hs.entries

theorem Lossless.bounds {shouldStartAtElement blockOffset : ℕ}
    {extraData : SequencerBatchAppendedExtraData} {batch : List BatchElement} (h : Lossless zlib
      ethers batchType shouldStartAtElement blockOffset event extraData l2ChainId batch) :
    batchType.markerContext.length + (groupBatch batch).groupedBlocks.length < 2 ^ 24 ∧
      (shouldStartAtElement + 2 ^ 64 - blockOffset) % 2 ^ 64 < 2 ^ 40 ∧
      extraData.batchIndex < 2 ^ 53 := by
  obtain ⟨params, bytes, parsed, hgen, hser, hparse, -⟩ := h
  obtain ⟨p, hp, hstart, -, hof, -⟩ :=
    genSequencerBatchParams_spec shouldStartAtElement blockOffset batch
  obtain rfl : params = p := Except.ok.inj (hgen.symm.trans hp)
  obtain ⟨hfst, hcount⟩ := serialize_bounds hser
  rw [hof.length_eq] at hcount
  rw [hstart] at hfst
  have hindex := parseEvent_batchIndex_lt hparse
  exact ⟨hcount, hfst, hindex⟩

def distinctTimestamps (n : ℕ) : List BatchElement :=
  (List.range n).map fun i => ⟨i + 1, 0, none⟩

theorem distinctTimestamps_succ (n : ℕ) :
    distinctTimestamps (n + 1) = distinctTimestamps n ++ [⟨n + 1, 0, none⟩] := by
  simp [distinctTimestamps, range_succ]

theorem groupBatch_distinctTimestamps (n : ℕ) :
    (groupBatch (distinctTimestamps n)).groupedBlocks.length = n ∧
      (groupBatch (distinctTimestamps n)).lastTimestamp = n := by
  induction n with
  | zero => exact ⟨rfl, rfl⟩
  | succ n ih =>
    have hstep : groupBatch (distinctTimestamps (n + 1)) =
        (groupBatch (distinctTimestamps n)).step ⟨n + 1, 0, none⟩ := by
      rw [distinctTimestamps_succ, groupBatch, foldl_append]
      rfl
    have hnew : (groupBatch (distinctTimestamps n)).needsNewGroup ⟨n + 1, 0, none⟩ = true := by
      simp [Grouping.needsNewGroup, ih.2]
    rw [hstep]
    refine ⟨?_, rfl⟩
    rw [Grouping.step_groupedBlocks_new hnew, length_append, ih.1]
    rfl

theorem representable_distinctTimestamps {n : ℕ} (hpos : 0 < n) (hn : n < 2 ^ 24) :
    Representable (distinctTimestamps n) := by
  have hmem : ∀ el ∈ distinctTimestamps n, ∃ i < n, el = ⟨i + 1, 0, none⟩ := by
    intro el hel
    obtain ⟨i, hi, rfl⟩ := mem_map.mp hel
    exact ⟨i, mem_range.mp hi, rfl⟩
  refine ⟨?_, by simpa [distinctTimestamps] using hn, ?_, ?_, ?_⟩
  · exact ne_nil_of_length_pos (by simpa [distinctTimestamps] using hpos)
  · intro el hel
    obtain ⟨i, hi, rfl⟩ := hmem el hel
    exact ⟨Nat.succ_ne_zero i, by show i + 1 < 2 ^ 40; omega⟩
  · intro el hel
    obtain ⟨i, hi, rfl⟩ := hmem el hel
    exact Nat.two_pow_pos 40
  · intro el hel tx htx
    obtain ⟨i, hi, rfl⟩ := hmem el hel
    cases htx

def plainExtraData (batchIndex : ℕ) : SequencerBatchAppendedExtraData :=
  ⟨0, 0, [], [], [], 0, batchIndex, 1, [], []⟩

/-- Batches that do not pass: as many contexts as elements leave no room for the marker of a
compressed batch, a start index above five bytes is not encoded, and a batch index above the safe
integers is not parsed. -/
theorem batch_pipeline_not_lossless :
    (Representable (distinctTimestamps (2 ^ 24 - 1)) ∧
      ¬ Lossless storedZlib legacyEthers .zlib 0 0 ⟨0⟩ (plainExtraData 0) 0
        (distinctTimestamps (2 ^ 24 - 1))) ∧
    (Representable (distinctTimestamps 1) ∧
      ¬ Lossless storedZlib legacyEthers .legacy (2 ^ 40) 0 ⟨0⟩ (plainExtraData 0) 0
        (distinctTimestamps 1)) ∧
    ¬ Lossless storedZlib legacyEthers .legacy 0 0 ⟨0⟩ (plainExtraData (2 ^ 53)) 0
      (distinctTimestamps 1) := by
  refine ⟨⟨representable_distinctTimestamps (by norm_num) (by norm_num), fun h => ?_⟩,
    ⟨representable_distinctTimestamps (by norm_num) (by norm_num), fun h => ?_⟩, fun h => ?_⟩
  · have hcount := h.bounds.1
    rw [(groupBatch_distinctTimestamps _).1] at hcount
    exact absurd hcount (by decide)
  · exact absurd h.bounds.2.1 (by decide)
  · exact absurd h.bounds.2.2 (lt_irrefl _)

def mixedBatch : List BatchElement :=
  [⟨11, 4, some ⟨legacyEthers.serializeTransaction (legacyTx 3)⟩⟩, ⟨11, 5, none⟩,
    ⟨12, 6, some ⟨legacyEthers.serializeTransaction (legacyTx 4)⟩⟩]

theorem batch_pipeline_lossless_mixed :
    Lossless storedZlib legacyEthers .legacy 7 2 ⟨5⟩ (plainExtraData 3) 10 mixedBatch ∧
      Lossless storedZlib legacyEthers .zlib 7 2 ⟨5⟩ (plainExtraData 3) 10 mixedBatch := by
  have hbatch : Representable mixedBatch := by
    refine ⟨by decide, by decide, by decide, by decide, ?_⟩
    simp only [mixedBatch, forall_mem_cons]
    decide +kernel
  have hok : Ingestible legacyEthers ⟨5⟩ (plainExtraData 3) mixedBatch := by
    refine ⟨?_, by decide, by decide, by decide, by decide⟩
    have hparse : ∀ nonce ∈ [3, 4], legacyEthers.parse (legacyEthers.serializeTransaction
        (legacyTx nonce)) = some (legacyTx nonce) := by decide +kernel
    intro el hel tx htx
    simp only [mixedBatch, mem_cons, not_mem_nil, or_false] at hel
    rcases hel with rfl | rfl | rfl
    · cases htx
      exact ⟨_, hparse 3 (by decide), rfl⟩
    · cases htx
    · cases htx
      exact ⟨_, hparse 4 (by decide), rfl⟩
  exact ⟨batch_pipeline_lossless storedZlib_lossless (.inl rfl) 10 hbatch (by decide) (by decide)
      hok, batch_pipeline_lossless storedZlib_lossless (.inr rfl) 10 hbatch (by decide)
      (by decide) hok⟩

end BatchPipeline
