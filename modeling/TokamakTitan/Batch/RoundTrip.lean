import TokamakTitan.Batch.Grouping
import TokamakTitan.Batch.Decoding
import TokamakTitan.Library.Checked

/-! The TypeScript decoder reads back what the Go encoder writes, for both batch types. -/
namespace BatchSubmitter
open BigEndian CoreUtils List

theorem writeUint64_ok {val n : ℕ} (h1 : 1 ≤ n) (h8 : n ≤ 8) (h : val < 256 ^ n) :
    writeUint64 val n = .ok (encode n val) := by
  unfold writeUint64
  rw [if_neg (by omega), if_neg (by omega)]

theorem writeUint64_lt {val n : ℕ} {bytes : Bytes} (h : writeUint64 val n = .ok bytes) :
    val < 256 ^ n := by
  by_contra hval
  unfold writeUint64 at h
  split at h
  · cases h
  · rw [if_pos (by omega)] at h
    cases h

variable {p : AppendSequencerBatchParams} {batchType : BatchType} {zlib : Zlib}

theorem serialize_bounds {bytes : Bytes} (h : p.serialize zlib batchType = .ok bytes) :
    p.shouldStartAtElement < 2 ^ 40 ∧
      batchType.markerContext.length + p.contexts.length < 2 ^ 24 := by
  rw [AppendSequencerBatchParams.serialize, AppendSequencerBatchParams.write] at h
  obtain ⟨_, hstart, h⟩ := Checked.bind_eq_ok.mp h
  obtain ⟨_, -, h⟩ := Checked.bind_eq_ok.mp h
  by_cases hc : p.contexts.length = 0 ∧ p.txs.length ≠ 0
  · simp only [if_pos hc] at h
    cases h
  · simp only [if_neg hc] at h
    obtain ⟨_, hcount, -⟩ := Checked.bind_eq_ok.mp h
    have hlen := writeUint64_lt hcount
    rw [length_append] at hlen
    exact ⟨writeUint64_lt hstart, hlen⟩

/-- The encoder of a value and a reader of it are inverse, whatever bytes follow. -/
def Transcodes {α β : Type} (write : α → Except BatchError Bytes)
    (read : Bytes → Option (β × Bytes)) (x : α) (y : β) : Prop :=
  ∃ bytes, write x = .ok bytes ∧ ∀ rest, read (bytes ++ rest) = some (y, rest)

theorem transcodes_all {α β : Type} {write : α → Except BatchError Bytes}
    {read : Bytes → Option (β × Bytes)} {xs : List α} {ys : List β}
    (h : Forall₂ (Transcodes write read) xs ys) :
    Transcodes (writeAll write) (readMany read xs.length) xs ys := by
  induction h with
  | nil => exact ⟨[], rfl, fun rest => rfl⟩
  | cons hx _ ih =>
    obtain ⟨b, hb, hread⟩ := hx
    obtain ⟨bs, hbs, hreads⟩ := ih
    simp only [writeAll, bind_pure_comp] at hbs
    refine ⟨b ++ bs, ?_, fun rest => ?_⟩
    · simp only [writeAll, mapM_cons, hb]
      cases hm : mapM write _ with
      | error => rw [hm] at hbs; cases hbs
      | ok =>
        rw [hm] at hbs
        cases hbs
        rfl
    · simp only [length_cons, readMany, append_assoc, hread, hreads,
        Option.bind_eq_bind, Option.bind_some, Option.pure_def]

def BatchContext.toContext (c : BatchContext) : Context :=
  ⟨c.numSequencedTxs, c.numSubsequentQueueTxs, c.timestamp, c.blockNumber⟩

structure BatchContext.Fits (c : BatchContext) : Prop where
  numSequencedTxs : c.numSequencedTxs < 2 ^ 24
  numSubsequentQueueTxs : c.numSubsequentQueueTxs < 2 ^ 24
  timestamp : c.timestamp < 2 ^ 40
  blockNumber : c.blockNumber < 2 ^ 40

theorem BatchContext.transcodes {c : BatchContext} (h : c.Fits) :
    Transcodes BatchContext.write Context.read c c.toContext := by
  obtain ⟨hs, hq, ht, hn⟩ := h
  refine ⟨encode 3 c.numSequencedTxs ++ encode 3 c.numSubsequentQueueTxs ++
    encode 5 c.timestamp ++ encode 5 c.blockNumber, ?_, fun rest => ?_⟩
  · rw [BatchContext.write, writeUint64_ok (by decide) (by decide) hs,
      writeUint64_ok (by decide) (by decide) hq, writeUint64_ok (by decide) (by decide) ht,
      writeUint64_ok (by decide) (by decide) hn]
    rfl
  · simp only [Context.read, append_assoc, readNat_encode (n := 3) hs,
      readNat_encode (n := 3) hq, readNat_encode (n := 5) ht, readNat_encode (n := 5) hn,
      Option.bind_eq_bind, Option.bind_some, Option.pure_def, BatchContext.toContext]

def CachedTx.toBatchedTx (tx : CachedTx) : BatchedTx := ⟨tx.size, tx.rawTx⟩

theorem CachedTx.transcodes {tx : CachedTx} (h : tx.size < 2 ^ 24) :
    Transcodes CachedTx.write BatchedTx.read tx tx.toBatchedTx := by
  refine ⟨encode 3 tx.size ++ tx.rawTx, ?_, fun rest => ?_⟩
  · rw [CachedTx.write, txLenSize, writeUint64_ok (by decide) (by decide) h]
    rfl
  · have hraw : readBytes tx.size (tx.rawTx ++ rest) = some (tx.rawTx, rest) :=
      readBytes_append rfl rest
    simp only [BatchedTx.read, append_assoc, readNat_encode (n := 3) h, hraw,
      Option.bind_eq_bind, Option.bind_some, Option.pure_def, CachedTx.toBatchedTx]

theorem readMany_add {α : Type} (read : Bytes → Option (α × Bytes)) (m n : ℕ) (br : Bytes) :
    readMany read (m + n) br = (readMany read m br).bind fun r =>
      (readMany read n r.2).map fun r' => (r.1 ++ r'.1, r'.2) := by
  induction m generalizing br with
  | zero => cases h : readMany read n br <;> simp [readMany, h]
  | succ m ih =>
    rw [Nat.succ_add, readMany, readMany]
    cases h : read br with
    | none => rfl
    | some r =>
      simp only [bind, Option.bind_some, ih]
      cases hm : readMany read m r.2 with
      | none => rfl
      | some r' => cases hn : readMany read n r'.2 <;> simp [hn]

theorem readTransactions_eq (contexts : List Context) (br : Bytes) :
    readTransactions contexts br =
      readMany BatchedTx.read (contexts.map Context.numSequencedTransactions).sum br := by
  induction contexts generalizing br with
  | nil => rfl
  | cons context contexts ih =>
    rw [readTransactions, map_cons, sum_cons, readMany_add]
    cases h : readMany BatchedTx.read context.numSequencedTransactions br with
    | none => rfl
    | some r =>
      simp only [bind, Option.bind_some, ih]
      cases readMany BatchedTx.read _ r.2 <;> rfl

structure AppendSequencerBatchParams.Fits (p : AppendSequencerBatchParams)
    (batchType : BatchType) : Prop where
  shouldStartAtElement : p.shouldStartAtElement < 2 ^ 40
  totalElementsToAppend : p.totalElementsToAppend < 2 ^ 24
  numContexts : (batchType.markerContext ++ p.contexts).length < 2 ^ 24
  contexts : ∀ c ∈ p.contexts, c.Fits
  untyped : ∀ c ∈ p.contexts, c.timestamp ≠ 0
  txs : ∀ tx ∈ p.txs, tx.size < 2 ^ 24
  numTxs : (p.contexts.map BatchContext.numSequencedTxs).sum = p.txs.length

theorem AppendSequencerBatchParams.Fits.nonempty (h : p.Fits batchType) :
    ¬ (p.contexts.length = 0 ∧ p.txs.length ≠ 0) := by
  rintro ⟨hc, ht⟩
  have hn := h.numTxs
  rw [eq_nil_of_length_eq_zero hc] at hn
  exact ht hn.symm

theorem markerContext_fits (batchType : BatchType) : ∀ c ∈ batchType.markerContext, c.Fits := by
  cases batchType with
  | zlib =>
    intro c hc
    rw [mem_singleton.mp hc]
    exact ⟨by decide, by decide, by decide, by decide⟩
  | legacy => simp [BatchType.markerContext]
  | unknown => simp [BatchType.markerContext]

theorem contexts_transcode {cs : List BatchContext} (h : ∀ c ∈ cs, c.Fits) :
    Transcodes (writeAll BatchContext.write) (readMany Context.read cs.length) cs
      (cs.map BatchContext.toContext) := by
  apply transcodes_all
  rw [forall₂_map_right_iff, forall₂_same]
  exact fun c hc => BatchContext.transcodes (h c hc)

theorem txs_transcode {txs : List CachedTx} (h : ∀ tx ∈ txs, tx.size < 2 ^ 24) :
    Transcodes (writeAll CachedTx.write) (readMany BatchedTx.read txs.length) txs
      (txs.map CachedTx.toBatchedTx) := by
  apply transcodes_all
  rw [forall₂_map_right_iff, forall₂_same]
  exact fun tx htx => CachedTx.transcodes (h tx htx)

def headerBytes (p : AppendSequencerBatchParams) (batchType : BatchType) (contexts : Bytes) :
    Bytes :=
  encode 5 p.shouldStartAtElement ++ encode 3 p.totalElementsToAppend ++
    encode 3 (batchType.markerContext ++ p.contexts).length ++ contexts

def AppendSequencerBatchParams.decoded (p : AppendSequencerBatchParams) (type : DecodedType) :
    SequencerBatch :=
  { shouldStartAtElement := p.shouldStartAtElement
    totalElementsToAppend := p.totalElementsToAppend
    contexts := p.contexts.map BatchContext.toContext
    transactions := p.txs.map CachedTx.toBatchedTx
    type }

theorem read_header {contexts body plain : Bytes} {type : DecodedType} (h : p.Fits batchType)
    (hcontexts : ∀ rest, readMany Context.read (batchType.markerContext ++ p.contexts).length
      (contexts ++ rest) = some ((batchType.markerContext ++ p.contexts).map BatchContext.toContext,
      rest)) (hopen : openTyped zlib ((batchType.markerContext ++ p.contexts).map
      BatchContext.toContext) body = some (type, p.contexts.map BatchContext.toContext, plain))
    (hplain : readMany BatchedTx.read p.txs.length plain = some (p.txs.map CachedTx.toBatchedTx,
      [])) :
    SequencerBatch.read zlib (FOUR_BYTE_APPEND_SEQUENCER_BATCH ++
      (headerBytes p batchType contexts ++ body)) = some (p.decoded type) := by
  have hsum : ((p.contexts.map BatchContext.toContext).map
      Context.numSequencedTransactions).sum = p.txs.length := by
    rw [map_map]
    exact h.numTxs
  have hsel (rest : Bytes) : readBytes 4 (FOUR_BYTE_APPEND_SEQUENCER_BATCH ++ rest) =
      some (FOUR_BYTE_APPEND_SEQUENCER_BATCH, rest) :=
    readBytes_append (show FOUR_BYTE_APPEND_SEQUENCER_BATCH.length = 4 from rfl) rest
  simp only [SequencerBatch.read, headerBytes, append_assoc, hsel, Option.bind_eq_bind,
    Option.bind_some, ↓reduceIte, readNat_encode (n := 5) h.shouldStartAtElement,
    readNat_encode (n := 3) h.totalElementsToAppend, readNat_encode (n := 3) h.numContexts,
    hcontexts, hopen, readTransactions_eq, hsum, hplain, Option.pure_def,
    AppendSequencerBatchParams.decoded]

def BatchType.decodedType : BatchType → DecodedType
  | .zlib => .ZLIB
  | .legacy => .LEGACY
  | .unknown _ => .LEGACY

theorem length_headerBytes (p : AppendSequencerBatchParams) (batchType : BatchType)
    (contexts rest : Bytes) : 11 ≤ (headerBytes p batchType contexts ++ rest).length := by
  simp only [headerBytes, length_append, length_encode]
  omega

theorem read_serialize (hzlib : ∀ bytes, zlib.inflate (zlib.deflate bytes) = some bytes)
    (htype : batchType = .legacy ∨ batchType = .zlib) (h : p.Fits batchType) :
    ∃ bytes, p.serialize zlib batchType = .ok bytes ∧ 11 ≤ bytes.length ∧
      SequencerBatch.read zlib (FOUR_BYTE_APPEND_SEQUENCER_BATCH ++ bytes) =
        some (p.decoded batchType.decodedType) := by
  have hfits : ∀ c ∈ batchType.markerContext ++ p.contexts, c.Fits := by
    intro c hc
    rcases mem_append.mp hc with hc | hc
    · exact markerContext_fits batchType c hc
    · exact h.contexts c hc
  obtain ⟨contexts, hwrite, hread⟩ := contexts_transcode hfits
  obtain ⟨txs, htxs, htxread⟩ := txs_transcode h.txs
  have hplain := htxread []
  rw [append_nil] at hplain
  have hstart := writeUint64_ok (n := 5) (by decide) (by decide) h.shouldStartAtElement
  have htotal := writeUint64_ok (n := 3) (by decide) (by decide) h.totalElementsToAppend
  have hcount := writeUint64_ok (n := 3) (by decide) (by decide) h.numContexts
  rcases htype with rfl | rfl
  · refine ⟨headerBytes p .legacy contexts ++ txs, ?_, length_headerBytes _ _ _ _,
      read_header h hread ?_ hplain⟩
    · simp only [AppendSequencerBatchParams.serialize, AppendSequencerBatchParams.write, hstart,
        htotal, hcount, hwrite, htxs, if_neg h.nonempty]
      rfl
    · cases hc : p.contexts with
      | nil => rfl
      | cons c =>
        have hz : c.timestamp ≠ 0 := h.untyped c (by simp [hc])
        simp [openTyped, BatchType.markerContext, BatchContext.toContext, hz, BatchType.decodedType]
  · refine ⟨headerBytes p .zlib contexts ++ zlib.deflate txs, ?_, length_headerBytes _ _ _ _,
      read_header h hread ?_ hplain⟩
    · simp only [AppendSequencerBatchParams.serialize, AppendSequencerBatchParams.write, hstart,
        htotal, hcount, hwrite, htxs, if_neg h.nonempty]
      rfl
    · simp [openTyped, BatchType.markerContext, BatchContext.toContext, hzlib,
        BatchType.decodedType]

end BatchSubmitter
