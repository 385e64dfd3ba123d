import TokamakTitan.Ingestion.Service

/-! The L1 history that the service reads, and the entries that its events determine. The indexes of
each kind of event are consecutive, and a batch begins where the one before it ends. -/
namespace DataTransportLayer
open BatchSubmitter CoreUtils Checked List Except
open InitialSegment (Abutting index_mem_of_numbered eq_of_numbered)

/-- A `SequencerBatchAppended` event with the `TransactionBatchAppended` event right before it. -/
structure SequencerBatchLogs where
  appended : Log SequencerBatchAppendedArgs
  batch : Log BatchAppendedArgs
  sameTransaction : batch.transactionHash = appended.transactionHash
  adjacent : batch.logIndex + 1 = appended.logIndex

structure L1 where
  enqueued : List (Log TransactionEnqueuedArgs)
  sequencerBatches : List SequencerBatchLogs
  stateBatches : List (Log BatchAppendedArgs)
  transaction : Bytes → L1Transaction
  timestamp : ℕ → ℕ

def BatchAppendedArgs.span (args : BatchAppendedArgs) : ℕ × ℕ :=
  (args.prevTotalElements, args.batchSize)

def SequencerBatchAppendedArgs.span (args : SequencerBatchAppendedArgs) : ℕ × ℕ :=
  (args.startingQueueIndex, args.numQueueElements)

def queueIndexOf (entry : TransactionEntry) : Option (ℕ × ℕ) :=
  match entry.queueOrigin, entry.queueIndex with
  | .l1, some queueIndex => some (queueIndex, entry.index)
  | _, _ => none

def queueIndexes (entries : List TransactionEntry) : List (ℕ × ℕ) := entries.filterMap queueIndexOf

namespace L1

variable (net : Network) (l1 : L1) (b : SequencerBatchLogs)

def sequencerExtraData : SequencerBatchAppendedExtraData where
  timestamp := l1.timestamp b.appended.blockNumber
  blockNumber := b.appended.blockNumber
  submitter := (l1.transaction b.appended.transactionHash).sender
  l1TransactionHash := (l1.transaction b.appended.transactionHash).hash
  l1TransactionData := (l1.transaction b.appended.transactionHash).data
  prevTotalElements := b.batch.args.prevTotalElements
  batchIndex := b.batch.args.batchIndex
  batchSize := b.batch.args.batchSize
  batchRoot := b.batch.args.batchRoot
  batchExtraData := b.batch.args.extraData

def stateExtraData (event : Log BatchAppendedArgs) : StateBatchAppended.ExtraData where
  timestamp := l1.timestamp event.blockNumber
  blockNumber := event.blockNumber
  submitter := (l1.transaction event.transactionHash).sender
  l1TransactionHash := (l1.transaction event.transactionHash).hash
  l1TransactionData := (l1.transaction event.transactionHash).data

def sequencerBatch : Except ParseError ParsedEvent :=
  parseEvent net.zlib net.ethers b.appended.args.toSequencerBatchAppendedEvent
    (l1.sequencerExtraData b) net.l2ChainId

def stateBatch (event : Log BatchAppendedArgs) : Except ParseError StateBatchAppended.Parsed :=
  StateBatchAppended.parseEvent net.decodeFunctionData event (l1.stateExtraData event)

def Determined : (key : Key) → ℕ → key.Value → Prop
  | .enqueue, i, entry => entry.index = i ∧
    ∃ e ∈ l1.enqueued, TransactionEnqueued.parseEvent e = .ok entry
  | .enqueueCtcIndex, i, index => ∃ b ∈ l1.sequencerBatches, ∃ p,
    l1.sequencerBatch net b = .ok p ∧ (i, index) ∈ queueIndexes p.transactionEntries
  | .transaction, i, entry => entry.index = i ∧ ∃ b ∈ l1.sequencerBatches, ∃ p,
    l1.sequencerBatch net b = .ok p ∧ entry ∈ p.transactionEntries
  | .transactionBatch, i, entry => entry.index = i ∧ ∃ b ∈ l1.sequencerBatches, ∃ p,
    l1.sequencerBatch net b = .ok p ∧ entry = p.transactionBatchEntry
  | .stateRoot, i, entry => entry.index = i ∧ ∃ e ∈ l1.stateBatches, ∃ p,
    l1.stateBatch net e = .ok p ∧ entry ∈ p.stateRootEntries
  | .stateRootBatch, i, entry => entry.index = i ∧ ∃ e ∈ l1.stateBatches, ∃ p,
    l1.stateBatch net e = .ok p ∧ entry = p.stateRootBatchEntry

/-- The events are in the order of their blocks, and the indexes of events and of what they carry
are consecutive. -/
structure Consecutive : Prop where
  enqueuedOrder : l1.enqueued.Pairwise fun e e' => e.blockNumber ≤ e'.blockNumber
  sequencerOrder : l1.sequencerBatches.Pairwise fun b b' =>
    b.appended.blockNumber ≤ b'.appended.blockNumber
  stateOrder : l1.stateBatches.Pairwise fun e e' => e.blockNumber ≤ e'.blockNumber
  enqueued : ∀ k (e : Log TransactionEnqueuedArgs), l1.enqueued[k]? = some e →
    e.args.queueIndex = k
  sequencerBatches : ∀ k (b : SequencerBatchLogs), l1.sequencerBatches[k]? = some b →
    b.batch.args.batchIndex = k
  stateBatches : ∀ k (e : Log BatchAppendedArgs), l1.stateBatches[k]? = some e →
    e.args.batchIndex = k
  transactions : Abutting (l1.sequencerBatches.map fun b => b.batch.args.span)
  queue : Abutting (l1.sequencerBatches.map fun b => b.appended.args.span)
  stateRoots : Abutting (l1.stateBatches.map fun e => e.args.span)
  sequencerSize : ∀ b ∈ l1.sequencerBatches, ∀ p, l1.sequencerBatch net b = .ok p →
    p.transactionEntries.length = b.batch.args.batchSize ∧
      (queueIndexes p.transactionEntries).length = b.appended.args.numQueueElements
  stateSize : ∀ e ∈ l1.stateBatches, ∀ p, l1.stateBatch net e = .ok p →
    p.stateRootEntries.length = e.args.batchSize
  distinctLogs : ∀ b ∈ l1.sequencerBatches, ∀ b' ∈ l1.sequencerBatches,
    b.batch.transactionHash = b'.batch.transactionHash → b.batch.logIndex = b'.batch.logIndex →
      b.batch = b'.batch

end L1

/-- What the provider answers is on L1. It may leave out events, repeat them or fail. -/
structure Rpc.Honest (l1 : L1) (rpc : Rpc) : Prop where
  transactionEnqueued : ∀ range events, rpc.transactionEnqueued range = some events →
    ∀ e ∈ events, e ∈ l1.enqueued
  sequencerBatchAppended : ∀ range events, rpc.sequencerBatchAppended range = some events →
    ∀ e ∈ events, ∃ b ∈ l1.sequencerBatches, b.appended = e
  stateBatchAppended : ∀ range events, rpc.stateBatchAppended range = some events →
    ∀ e ∈ events, e ∈ l1.stateBatches
  getTransaction : ∀ hash tx, rpc.getTransaction hash = some tx → tx = l1.transaction hash
  getBlock : ∀ number block, rpc.getBlock number = some block →
    block = ⟨number, l1.timestamp number⟩
  transactionBatchAppended : ∀ number events, rpc.transactionBatchAppended number = some events →
      ∀ e ∈ events, ∃ b ∈ l1.sequencerBatches, b.batch = e

variable {e : Log BatchAppendedArgs} {b : SequencerBatchLogs} {net : Network} {l1 : L1}

section ExtraData

variable {rpc : Rpc}

theorem sequencerExtraData_of_honest (hl1 : l1.Consecutive net) (hrpc : rpc.Honest l1)
    (hb : b ∈ l1.sequencerBatches) {x : SequencerBatchAppendedExtraData}
    (h : SequencerBatchAppended.getExtraData b.appended rpc.toProvider = some x) :
    x = l1.sequencerExtraData b := by
  simp only [SequencerBatchAppended.getExtraData, Option.bind_eq_bind, Option.bind_eq_some_iff,
    Option.pure_def, Option.some.injEq] at h
  obtain ⟨tx, htx, block, hblock, events, hevents, found, hfound, rfl⟩ := h
  obtain ⟨b', hb', rfl⟩ := hrpc.transactionBatchAppended _ _ hevents found
    (mem_of_find?_eq_some hfound)
  have hmatch := find?_some hfound
  simp only [decide_eq_true_eq] at hmatch
  have hsame : b'.batch = b.batch := by
    apply hl1.distinctLogs b' hb' b hb
    · rw [hmatch.1, b.sameTransaction]
    · have := b.adjacent
      omega
  rw [hrpc.getTransaction _ _ htx, hrpc.getBlock _ _ hblock, hsame]
  rfl

theorem stateExtraData_of_honest (hrpc : rpc.Honest l1) {x : StateBatchAppended.ExtraData}
    (h : StateBatchAppended.getExtraData e rpc.toProvider = some x) : x = l1.stateExtraData e := by
  simp only [StateBatchAppended.getExtraData, Option.bind_eq_bind, Option.bind_eq_some_iff,
    Option.pure_def, Option.some.injEq] at h
  obtain ⟨block, hblock, tx, htx, rfl⟩ := h
  rw [hrpc.getTransaction _ _ htx, hrpc.getBlock _ _ hblock]
  rfl

end ExtraData

variable {p : ParsedEvent} {entry : TransactionEntry} {i : ℕ}

section Parsed

variable {ethers : Ethers} {event : SequencerBatchAppendedEvent}
  {extraData : SequencerBatchAppendedExtraData} {l2ChainId : ℕ} {transactions : List BatchedTx}

theorem eq_of_toNumber {n m : ℕ} (h : toNumber n = .ok m) : m = n :=
  (Checked.safeNumber_eq_ok.mp h).2

structure Numbered (event : SequencerBatchAppendedEvent) (prevTotalElements : ℕ)
    (entries : List TransactionEntry) : Prop where
  transactions : entries.map TransactionEntry.index =
    List.range' prevTotalElements entries.length
  queue : (queueIndexes entries).map Prod.fst =
    List.range' event.startingQueueIndex (queueIndexes entries).length
  queued : ∀ entry ∈ entries, entry.queueOrigin = .l1 → entry.queueIndex.isSome

structure Expansion.Counted (event : SequencerBatchAppendedEvent) (prevTotalElements : ℕ)
    (s : Expansion) : Prop where
  numbered : Numbered event prevTotalElements s.transactionEntries
  transactionIndex : s.transactionIndex = s.transactionEntries.length
  enqueuedCount : s.enqueuedCount = (queueIndexes s.transactionEntries).length

theorem Expansion.counted_init (prevTotalElements : ℕ) :
    Expansion.Counted event prevTotalElements ⟨[], 0, 0, 0⟩ :=
  ⟨⟨rfl, rfl, by simp⟩, rfl, rfl⟩

theorem queueIndexes_concat (entries : List TransactionEntry) (entry : TransactionEntry) :
    queueIndexes (entries ++ [entry]) = queueIndexes entries ++ (queueIndexOf entry).toList := by
  cases h : queueIndexOf entry <;> simp [queueIndexes, h]

theorem Numbered.concat {prevTotalElements : ℕ} {entries : List TransactionEntry}
    (h : Numbered event prevTotalElements entries)
    (hindex : entry.index = prevTotalElements + entries.length) (hqueue : ∀ q, queueIndexOf entry =
      some q → q.1 = event.startingQueueIndex + (queueIndexes entries).length)
    (hqueued : entry.queueOrigin = .l1 → entry.queueIndex.isSome) :
    Numbered event prevTotalElements (entries ++ [entry]) := by
  constructor
  case transactions => simp [h.transactions, range'_concat, hindex]
  case queue =>
    rw [queueIndexes_concat]
    cases hof : queueIndexOf entry with
    | none => simpa using h.queue
    | some q => simp [h.queue, range'_concat, hqueue q hof]
  case queued =>
    intro e he
    rcases mem_append.mp he with he | he
    · exact h.queued e he
    · rwa [mem_singleton.mp he]

variable {s' s : Expansion} {context : Context}

theorem pushSequenced_counted
    (h : pushSequenced ethers extraData l2ChainId transactions context s = .ok s')
    (hs : s.Counted event extraData.prevTotalElements) :
    s'.Counted event extraData.prevTotalElements := by
  simp only [pushSequenced] at h
  split at h
  · cases h
  split at h
  · cases h
  rename_i buf hbuf tx htx
  obtain ⟨index, hindex, h⟩ := bind_eq_ok.mp h
  obtain ⟨batchIndex, hbatch, h⟩ := bind_eq_ok.mp h
  obtain rfl := pure_eq_ok.mp h
  have hqueue : queueIndexOf (sequencerEntry ethers l2ChainId index batchIndex context tx) =
    none := rfl
  constructor
  case numbered =>
    apply hs.numbered.concat
    · rw [← hs.transactionIndex, ← eq_of_toNumber hindex]
      rfl
    · intro q hq
      rw [hqueue] at hq
      cases hq
    · intro hl1
      cases hl1
  case transactionIndex => simp [hs.transactionIndex]
  case enqueuedCount => simp [queueIndexes_concat, hqueue, hs.enqueuedCount]

theorem pushQueued_counted (h : pushQueued event extraData context s = .ok s')
    (hs : s.Counted event extraData.prevTotalElements) :
    s'.Counted event extraData.prevTotalElements := by
  simp only [pushQueued] at h
  obtain ⟨index, hindex, h⟩ := bind_eq_ok.mp h
  obtain ⟨batchIndex, hbatch, h⟩ := bind_eq_ok.mp h
  obtain ⟨queueIndex, hqueueIndex, h⟩ := bind_eq_ok.mp h
  obtain rfl := pure_eq_ok.mp h
  have hqueue : queueIndexOf (enqueuedEntry index batchIndex queueIndex context) =
    some (queueIndex, index) := rfl
  constructor
  case numbered =>
    apply hs.numbered.concat
    · rw [← hs.transactionIndex, ← eq_of_toNumber hindex]
      rfl
    · intro q hq
      rw [hqueue, Option.some.injEq] at hq
      rw [← hs.enqueuedCount, ← eq_of_toNumber hqueueIndex, ← hq]
    · exact fun _ => rfl
  case transactionIndex => simp [hs.transactionIndex]
  case enqueuedCount => simp [queueIndexes_concat, hqueue, hs.enqueuedCount]

theorem iterate_keeps {P : Expansion → Prop} {body : Expansion → Except ParseError Expansion}
    (hbody : ∀ s s', body s = .ok s' → P s → P s') {n : ℕ} (h : iterate body n s = .ok s')
    (hs : P s) : P s' := by
  induction n generalizing s with
  | zero => rwa [← ok.inj h]
  | succ n ih =>
    obtain ⟨t, hstep, hrest⟩ := bind_eq_ok.mp h
    exact ih hrest (hbody s t hstep hs)

theorem expandContexts_counted {contexts : List Context}
    (h : expandContexts ethers event extraData l2ChainId transactions contexts s = .ok s')
    (hs : s.Counted event extraData.prevTotalElements) :
    s'.Counted event extraData.prevTotalElements := by
  induction contexts generalizing s with
  | nil => rwa [← ok.inj h]
  | cons context contexts ih =>
    obtain ⟨t, hsequenced, h⟩ := bind_eq_ok.mp h
    obtain ⟨u, hqueued, hrest⟩ := bind_eq_ok.mp h
    have ht := iterate_keeps (fun _ _ => pushSequenced_counted) hsequenced hs
    have hu := iterate_keeps (fun _ _ => pushQueued_counted) hqueued ht
    exact ih hrest hu

theorem parseEvent_numbered {zlib : Zlib}
    (h : parseEvent zlib ethers event extraData l2ChainId = .ok p) :
    p.transactionBatchEntry.index = extraData.batchIndex ∧
      Numbered event extraData.prevTotalElements p.transactionEntries := by
  simp only [parseEvent] at h
  split at h
  · cases h
  split at h
  · cases h
  obtain ⟨s, hexpand, h⟩ := bind_eq_ok.mp h
  obtain ⟨index, hindex, h⟩ := bind_eq_ok.mp h
  obtain ⟨size, -, h⟩ := bind_eq_ok.mp h
  obtain ⟨prevTotalElements, -, h⟩ := bind_eq_ok.mp h
  obtain rfl := pure_eq_ok.mp h
  exact ⟨eq_of_toNumber hindex,
    (expandContexts_counted hexpand (Expansion.counted_init _)).numbered⟩

theorem stateRootEntries_numbered {args : BatchAppendedArgs} {values : List Bytes}
    {entries : List StateRootEntry}
    (h : StateBatchAppended.stateRootEntries args i values = .ok entries) :
    entries.map StateRootEntry.index = range' (args.prevTotalElements + i) entries.length := by
  induction values generalizing i entries with
  | nil => simp [← ok.inj h]
  | cons value rest ih =>
    obtain ⟨index, hindex, h⟩ := bind_eq_ok.mp h
    obtain ⟨batchIndex, -, h⟩ := bind_eq_ok.mp h
    obtain ⟨others, hothers, h⟩ := bind_eq_ok.mp h
    obtain rfl := pure_eq_ok.mp h
    have hrest := ih hothers
    simp [range'_succ, hrest, eq_of_toNumber hindex, Nat.add_assoc]

theorem stateBatch_numbered {net : Network} {l1 : L1} {p : StateBatchAppended.Parsed}
    (h : l1.stateBatch net e = .ok p) :
    p.stateRootBatchEntry.index = e.args.batchIndex ∧
      p.stateRootEntries.map StateRootEntry.index =
        range' e.args.prevTotalElements p.stateRootEntries.length := by
  simp only [L1.stateBatch, StateBatchAppended.parseEvent] at h
  split at h
  · cases h
  obtain ⟨entries, hentries, h⟩ := bind_eq_ok.mp h
  obtain ⟨index, hindex, h⟩ := bind_eq_ok.mp h
  obtain ⟨size, -, h⟩ := bind_eq_ok.mp h
  obtain ⟨prevTotalElements, -, h⟩ := bind_eq_ok.mp h
  obtain rfl := pure_eq_ok.mp h
  exact ⟨eq_of_toNumber hindex, stateRootEntries_numbered hentries⟩

theorem enqueued_index {e : Log TransactionEnqueuedArgs} {entry : EnqueueEntry}
    (h : TransactionEnqueued.parseEvent e = .ok entry) : entry.index = e.args.queueIndex := by
  obtain ⟨index, hindex, h⟩ := bind_eq_ok.mp h
  obtain ⟨timestamp, -, h⟩ := bind_eq_ok.mp h
  obtain rfl := pure_eq_ok.mp h
  exact eq_of_toNumber hindex

end Parsed

theorem eq_of_position {α : Type} {l : List α} {position : α → ℕ}
    (h : ∀ k a, l[k]? = some a → position a = k) {a b : α} (ha : a ∈ l) (hb : b ∈ l)
    (hab : position a = position b) : a = b := by
  obtain ⟨j, hj⟩ := mem_iff_getElem?.mp ha
  obtain ⟨k, hk⟩ := mem_iff_getElem?.mp hb
  have hjk : j = k := by rw [← h j a hj, ← h k b hk, hab]
  subst hjk
  exact Option.some.inj (hj.symm.trans hk)

theorem eq_of_span {α : Type} {l : List α} {span : α → ℕ × ℕ} (h : Abutting (l.map span)) {a b : α}
    (ha : a ∈ l) (hb : b ∈ l) (hai : (span a).1 ≤ i ∧ i < (span a).1 + (span a).2)
    (hbi : (span b).1 ≤ i ∧ i < (span b).1 + (span b).2) : a = b := by
  obtain ⟨j, hj⟩ := mem_iff_getElem?.mp ha
  obtain ⟨k, hk⟩ := mem_iff_getElem?.mp hb
  have hjk : j = k := h.eq_of_mem (by simp [hj]) (by simp [hk]) hai hbi
  subst hjk
  exact Option.some.inj (hj.symm.trans hk)

theorem L1.Consecutive.mem_transactions (hl1 : l1.Consecutive net) (hb : b ∈ l1.sequencerBatches)
    (hp : l1.sequencerBatch net b = .ok p) (he : entry ∈ p.transactionEntries) :
    b.batch.args.span.1 ≤ entry.index ∧
      entry.index < b.batch.args.span.1 + b.batch.args.span.2 := by
  have hmem := index_mem_of_numbered (parseEvent_numbered hp).2.transactions he
  rwa [(hl1.sequencerSize b hb p hp).1] at hmem

theorem L1.Consecutive.mem_queue (hl1 : l1.Consecutive net) (hb : b ∈ l1.sequencerBatches)
    (hp : l1.sequencerBatch net b = .ok p) {q : ℕ × ℕ}
    (hq : q ∈ queueIndexes p.transactionEntries) :
    b.appended.args.span.1 ≤ q.1 ∧ q.1 < b.appended.args.span.1 + b.appended.args.span.2 := by
  have hmem := index_mem_of_numbered (parseEvent_numbered hp).2.queue hq
  rwa [(hl1.sequencerSize b hb p hp).2] at hmem

theorem L1.Consecutive.mem_stateRoots (hl1 : l1.Consecutive net) (he : e ∈ l1.stateBatches)
    {p : StateBatchAppended.Parsed} (hp : l1.stateBatch net e = .ok p) {entry : StateRootEntry}
    (hentry : entry ∈ p.stateRootEntries) :
    e.args.span.1 ≤ entry.index ∧ entry.index < e.args.span.1 + e.args.span.2 := by
  have hmem := index_mem_of_numbered (stateBatch_numbered hp).2 hentry
  rwa [hl1.stateSize e he p hp] at hmem

theorem L1.Consecutive.determined_unique (hl1 : l1.Consecutive net) {key : Key} {v w : key.Value}
    (hv : l1.Determined net key i v) (hw : l1.Determined net key i w) : v = w := by
  cases key with
  | enqueue =>
    obtain ⟨hvi, e, he, hev⟩ := hv
    obtain ⟨hwi, e', he', hew⟩ := hw
    have hsame : e = e' := eq_of_position hl1.enqueued he he'
      (by rw [← enqueued_index hev, ← enqueued_index hew, hvi, hwi])
    rw [← hsame, hev] at hew
    exact ok.inj hew
  | enqueueCtcIndex =>
    obtain ⟨b, hb, p, hp, hv⟩ := hv
    obtain ⟨b', hb', p', hp', hw⟩ := hw
    have hsame : b = b' := eq_of_span (i := i) hl1.queue hb hb' (hl1.mem_queue hb hp hv)
      (hl1.mem_queue hb' hp' hw)
    rw [← hsame, hp] at hp'
    obtain rfl := ok.inj hp'
    have hpair := eq_of_numbered (parseEvent_numbered hp).2.queue hv hw rfl
    exact (Prod.mk.inj hpair).2
  | transaction =>
    obtain ⟨rfl, b, hb, p, hp, hv⟩ := hv
    obtain ⟨hwi, b', hb', p', hp', hw⟩ := hw
    have hsame : b = b' := eq_of_span hl1.transactions hb hb' (hl1.mem_transactions hb hp hv)
      (hwi ▸ hl1.mem_transactions hb' hp' hw)
    rw [← hsame, hp] at hp'
    obtain rfl := ok.inj hp'
    exact eq_of_numbered (parseEvent_numbered hp).2.transactions hv hw hwi.symm
  | transactionBatch =>
    obtain ⟨hvi, b, hb, p, hp, rfl⟩ := hv
    obtain ⟨hwi, b', hb', p', hp', rfl⟩ := hw
    have hbi : p.transactionBatchEntry.index = b.batch.args.batchIndex :=
      (parseEvent_numbered hp).1
    have hbi' : p'.transactionBatchEntry.index = b'.batch.args.batchIndex :=
      (parseEvent_numbered hp').1
    have hsame : b = b' := eq_of_position hl1.sequencerBatches hb hb'
      (by rw [← hbi, ← hbi', hvi, hwi])
    rw [← hsame, hp] at hp'
    rw [ok.inj hp']
  | stateRoot =>
    obtain ⟨rfl, e, he, p, hp, hv⟩ := hv
    obtain ⟨hwi, e', he', p', hp', hw⟩ := hw
    have hsame : e = e' := eq_of_span hl1.stateRoots he he' (hl1.mem_stateRoots he hp hv)
      (hwi ▸ hl1.mem_stateRoots he' hp' hw)
    rw [← hsame, hp] at hp'
    obtain rfl := ok.inj hp'
    exact eq_of_numbered (stateBatch_numbered hp).2 hv hw hwi.symm
  | stateRootBatch =>
    obtain ⟨hvi, e, he, p, hp, rfl⟩ := hv
    obtain ⟨hwi, e', he', p', hp', rfl⟩ := hw
    have hsame : e = e' := eq_of_position hl1.stateBatches he he'
      (by rw [← (stateBatch_numbered hp).1, ← (stateBatch_numbered hp').1, hvi, hwi])
    rw [← hsame, hp] at hp'
    rw [ok.inj hp']

end DataTransportLayer
