import TokamakTitan.Library.KeyedQueue
import TokamakTitan.Derive.L1Stages

/-! The operations of the bank of channels keep the queue and the map of the channels in agreement.
-/
namespace Derive
open KeyedQueue List Nat

namespace ChannelBank

variable (bank : ChannelBank)

def Consistent : Prop := KeyedQueue.Matches bank.channelQueue bank.channels

def storedSize : ℕ :=
  (bank.channels.entries.map fun entry => entry.2.size.toNat).sum

def dropFront (k : ℕ) : ChannelBank where
  channels := (bank.channelQueue.take k).foldl (fun channels id => channels.erase id) bank.channels
  channelQueue := bank.channelQueue.drop k

def PrunedTo (bank after : ChannelBank) : Prop :=
  ∃ k ≤ bank.channelQueue.length, after = bank.dropFront k ∧
    ∀ j < k, maxChannelBankSize.toNat < (bank.dropFront j).storedSize

section FirstSeen

variable (cfg : Config) (origin : L1BlockRef)

def firstSeenIn : ChannelBank → List Frame → List ChannelID
  | _, [] => []
  | bank, f :: frames =>
    (if f.id ∈ bank.channels then [] else [f.id]) ++
      firstSeenIn (bank.ingestFrame cfg origin f) frames

def firstSeenInData (bank : ChannelBank) (data : Bytes) : List ChannelID :=
  match bank.prune, parseFrames data with
  | .ok bank, .ok frames => firstSeenIn cfg origin bank frames
  | _, _ => []

end FirstSeen

variable {bank : ChannelBank}

theorem Consistent.totalSize_eq (h : bank.Consistent) :
    bank.totalSize = weight Channel.size bank.channelQueue bank.channels := by
  rw [totalSize, ← sum_eq_foldl]
  exact Matches.sum_entries h

theorem Consistent.storedSize_eq (h : bank.Consistent) : bank.storedSize =
    weight (fun ch => ch.size.toNat) bank.channelQueue bank.channels := by
  rw [storedSize]
  exact Matches.sum_entries (w := fun ch : Channel => ch.size.toNat) h

theorem toNat_totalSize (bank : ChannelBank) : bank.totalSize.toNat = bank.storedSize % 2 ^ 64 := by
  rw [totalSize, ← sum_eq_foldl, storedSize]
  induction bank.channels.entries with
  | nil => rfl
  | cons entry entries ih =>
    rw [map_cons, sum_cons, BitVec.toNat_add, ih, map_cons, sum_cons, add_mod_mod]

theorem toNat_totalSize_of_lt (h : bank.storedSize < 2 ^ 64) :
    bank.totalSize.toNat = bank.storedSize := by
  rw [toNat_totalSize, mod_eq_of_lt h]

section Pop

variable {channels : AList fun _ : ChannelID => Channel} {id : ChannelID} {queue : List ChannelID}
  {ch : Channel}

variable (h : Consistent ⟨channels, id :: queue⟩)
include h

theorem Consistent.pop : Consistent ⟨channels.erase id, queue⟩ :=
  Matches.pop h

theorem Consistent.totalSize_pop (hch : channels.lookup id = some ch) :
    totalSize ⟨channels.erase id, queue⟩ = totalSize ⟨channels, id :: queue⟩ - ch.size := by
  rw [h.pop.totalSize_eq, h.totalSize_eq, Matches.weight_pop h hch, add_sub_cancel_left]

theorem Consistent.storedSize_pop (hch : channels.lookup id = some ch) :
    storedSize ⟨channels, id :: queue⟩ =
      ch.size.toNat + storedSize ⟨channels.erase id, queue⟩ := by
  rw [h.pop.storedSize_eq, h.storedSize_eq, Matches.weight_pop h hch]

theorem Consistent.storedSize_pop_le :
    storedSize ⟨channels.erase id, queue⟩ ≤ storedSize ⟨channels, id :: queue⟩ := by
  obtain ⟨ch, hch⟩ := Matches.exists_head h
  rw [h.storedSize_pop hch]
  exact le_add_left _ _

omit h in
theorem pruneFrom_eq (h : Consistent ⟨channels, queue⟩) :
    ∃ k ≤ queue.length, pruneFrom channels (totalSize ⟨channels, queue⟩) queue =
        .ok (dropFront ⟨channels, queue⟩ k) ∧
      (dropFront ⟨channels, queue⟩ k).totalSize ≤ maxChannelBankSize ∧
      ∀ j < k, maxChannelBankSize < (dropFront ⟨channels, queue⟩ j).totalSize := by
  induction queue generalizing channels with
  | nil =>
    have hzero : totalSize ⟨channels, []⟩ = 0 := h.totalSize_eq
    refine ⟨0, le_rfl, ?_, ?_, by simp⟩
    · rw [pruneFrom, hzero, if_neg (by decide)]
      rfl
    · change totalSize ⟨channels, []⟩ ≤ _
      rw [hzero]
      decide
  | cons id queue ih =>
    rw [pruneFrom]
    by_cases hlarge : totalSize ⟨channels, id :: queue⟩ > maxChannelBankSize
    · obtain ⟨ch, hch⟩ := Matches.exists_head h
      obtain ⟨k, hk, hok, hfits, hneeded⟩ := ih h.pop
      rw [h.totalSize_pop hch] at hok
      rw [if_pos hlarge, hch]
      refine ⟨k + 1, succ_le_succ hk, hok, hfits, ?_⟩
      intro j hj
      cases j with
      | zero => exact hlarge
      | succ j => exact hneeded j (lt_of_succ_lt_succ hj)
    · rw [if_neg hlarge]
      exact ⟨0, zero_le _, rfl, BitVec.not_lt.mp hlarge, by simp⟩

end Pop

theorem Consistent.dropFront (h : bank.Consistent) (k : ℕ) : (bank.dropFront k).Consistent := by
  obtain ⟨channels, queue⟩ := bank
  induction k generalizing channels queue with
  | zero => exact h
  | succ k ih =>
    cases queue with
    | nil => exact h
    | cons id queue => exact ih (channels.erase id) queue h.pop

theorem Consistent.storedSize_dropFront_le (h : bank.Consistent) (k : ℕ) :
    (bank.dropFront k).storedSize ≤ bank.storedSize := by
  obtain ⟨channels, queue⟩ := bank
  induction k generalizing channels queue with
  | zero => exact le_rfl
  | succ k ih =>
    cases queue with
    | nil => exact le_rfl
    | cons id queue => exact (ih (channels.erase id) queue h.pop).trans h.storedSize_pop_le

theorem Consistent.prune_eq (h : bank.Consistent) :
    ∃ after, bank.prune = .ok after ∧ bank.PrunedTo after ∧ after.Consistent ∧
      (bank.storedSize < 2 ^ 64 → after.storedSize ≤ maxChannelBankSize.toNat) := by
  obtain ⟨k, hk, hok, hfits, hneeded⟩ := pruneFrom_eq h
  refine ⟨bank.dropFront k, hok, ⟨k, hk, rfl, ?_⟩, h.dropFront k, ?_⟩
  · intro j hj
    have hlarge : maxChannelBankSize.toNat < (bank.dropFront j).totalSize.toNat := hneeded j hj
    rw [toNat_totalSize] at hlarge
    exact hlarge.trans_le (mod_le _ _)
  · intro hsize
    rw [← toNat_totalSize_of_lt ((h.storedSize_dropFront_le k).trans_lt hsize)]
    exact hfits

section Ingestion

variable (cfg : Config) (origin : L1BlockRef)

def frameSize (f : Frame) : ℕ := f.data.length + frameOverhead.toNat

theorem size_ingest_le (ch : Channel) (f : Frame) :
    (ch.ingest (f, origin)).size.toNat ≤ ch.size.toNat + frameSize f := by
  unfold Channel.ingest
  split
  next added hadded =>
    rw [(Channel.added_of_addFrame hadded).size]
    simp only [BitVec.toNat_add, BitVec.toNat_ofNat, frameSize]
    have hlength := mod_le f.data.length (2 ^ 64)
    have hframe := mod_le (f.data.length % 2 ^ 64 + frameOverhead.toNat) (2 ^ 64)
    have hwhole := mod_le (ch.size.toNat +
      (f.data.length % 2 ^ 64 + frameOverhead.toNat) % 2 ^ 64) (2 ^ 64)
    omega
  next => exact le_add_right _ _

theorem Consistent.openChannel (h : bank.Consistent) (id : ChannelID) :
    (bank.openChannel origin id).1.Consistent ∧
      (bank.openChannel origin id).1.storedSize = bank.storedSize ∧
      (bank.openChannel origin id).1.channelQueue =
        (bank.channelQueue ++ if id ∈ bank.channels then [] else [id]) ∧
      (bank.openChannel origin id).1.channels.lookup id =
        some (bank.openChannel origin id).2 := by
  unfold ChannelBank.openChannel
  cases hch : bank.channels.lookup id with
  | some =>
    have hmem : id ∈ bank.channels := AList.lookup_isSome.mp (by rw [hch]; rfl)
    simp [hmem, h, hch]
  | none =>
    have hfresh : id ∉ bank.channels := AList.lookup_eq_none.mp hch
    have hnext : Consistent ⟨bank.channels.insert id (newChannel id origin),
      bank.channelQueue ++ [id]⟩ := Matches.push h hfresh _
    refine ⟨hnext, ?_, by rw [if_neg hfresh], AList.lookup_insert _⟩
    rw [hnext.storedSize_eq, Matches.weight_push h hfresh, h.storedSize_eq]
    rfl

theorem Consistent.ingestFrame (h : bank.Consistent) (f : Frame) :
    (bank.ingestFrame cfg origin f).Consistent ∧
      (bank.ingestFrame cfg origin f).storedSize ≤ bank.storedSize + frameSize f ∧
      (bank.ingestFrame cfg origin f).channelQueue =
        bank.channelQueue ++ if f.id ∈ bank.channels then [] else [f.id] := by
  obtain ⟨hopen, hsize, hqueue, hlookup⟩ := h.openChannel origin f.id
  unfold ChannelBank.ingestFrame
  generalize bank.openChannel origin f.id = opened at hopen hsize hqueue hlookup
  obtain ⟨opened, ch⟩ := opened
  dsimp only at hopen hsize hqueue hlookup ⊢
  split
  next => exact ⟨hopen, by omega, hqueue⟩
  next =>
    have hmem : f.id ∈ opened.channels := AList.lookup_isSome.mp (by rw [hlookup]; rfl)
    have hnext : Consistent ⟨opened.channels.insert f.id (ch.ingest (f, origin)),
      opened.channelQueue⟩ := Matches.update hopen hmem _
    refine ⟨hnext, ?_, hqueue⟩
    have hupdate := Matches.weight_update (w := fun ch : Channel => ch.size.toNat)
      (y := ch.ingest (f, origin)) hopen hlookup
    have hadded := size_ingest_le origin ch f
    rw [hopen.storedSize_eq] at hsize
    rw [hnext.storedSize_eq]
    dsimp only at hupdate ⊢
    omega

theorem Consistent.ingestFrames (h : bank.Consistent) (frames : List Frame) :
    (frames.foldl (ChannelBank.ingestFrame cfg origin) bank).Consistent ∧
      (frames.foldl (ChannelBank.ingestFrame cfg origin) bank).storedSize ≤
        bank.storedSize + (frames.map frameSize).sum ∧
      (frames.foldl (ChannelBank.ingestFrame cfg origin) bank).channelQueue =
        bank.channelQueue ++ firstSeenIn cfg origin bank frames := by
  induction frames generalizing bank with
  | nil => simp [firstSeenIn, h]
  | cons f frames ih =>
    obtain ⟨hnext, hsize, hqueue⟩ := h.ingestFrame cfg origin f
    obtain ⟨hlast, hsizes, hqueues⟩ := ih hnext
    rw [foldl_cons, map_cons, sum_cons]
    refine ⟨hlast, by omega, ?_⟩
    rw [hqueues, hqueue, firstSeenIn, append_assoc]

variable {frames : List Frame}

theorem sum_frameSize_le {fuel : ℕ} {input : Bytes} (h : framesFrom fuel input = .ok frames) :
    (frames.map frameSize).sum ≤ 10 * input.length := by
  induction fuel generalizing input frames with
  | zero =>
    cases input with
    | nil =>
      cases h
      exact le_rfl
    | cons => cases h
  | succ fuel ih =>
    cases input with
    | nil =>
      cases h
      exact le_rfl
    | cons =>
      rw [framesFrom] at h
      split at h
      next => cases h
      next f rest hf =>
        split at h
        next => cases h
        next frames hframes =>
          cases h
          have hfirst := Frame.length_unmarshalBinary hf
          have hrest := ih hframes
          have hover : frameOverhead.toNat = 200 := rfl
          rw [map_cons, sum_cons, frameSize]
          omega

theorem sum_frameSize_parseFrames_le {data : Bytes} (h : parseFrames data = .ok frames) :
    (frames.map frameSize).sum ≤ 10 * data.length := by
  cases data with
  | nil => cases h
  | cons =>
    rw [parseFrames] at h
    split at h
    next => cases h
    next =>
      split at h
      next => cases h
      next => cases h
      next f frames hframes =>
        cases h
        have hsum := sum_frameSize_le hframes
        rw [length_cons]
        omega

theorem Consistent.ingestData (h : bank.Consistent) (data : Bytes) :
    ∃ after, bank.ingestData cfg origin data = .ok after ∧ after.Consistent ∧
      (bank.storedSize < 2 ^ 64 →
        after.storedSize ≤ maxChannelBankSize.toNat + 10 * data.length) ∧
      ∃ removed, bank.channelQueue ++ firstSeenInData cfg origin bank data =
        removed ++ after.channelQueue := by
  obtain ⟨pruned, hpruned, ⟨k, -, rfl, -⟩, hconsistent, hfits⟩ := h.prune_eq
  unfold ChannelBank.ingestData firstSeenInData
  rw [hpruned]
  have hsplit : bank.channelQueue =
    bank.channelQueue.take k ++ (bank.dropFront k).channelQueue := (take_append_drop k _).symm
  cases hparse : parseFrames data with
  | error =>
    refine ⟨_, rfl, hconsistent, ?_, bank.channelQueue.take k, ?_⟩
    · intro hsize
      have hle := hfits hsize
      omega
    · rw [append_nil]
      exact hsplit
  | ok frames =>
    obtain ⟨hlast, hsizes, hqueue⟩ := hconsistent.ingestFrames cfg origin frames
    have hsum := sum_frameSize_parseFrames_le hparse
    refine ⟨_, rfl, hlast, ?_, bank.channelQueue.take k, ?_⟩
    · intro hsize
      have hle := hfits hsize
      omega
    · rw [hqueue, ← append_assoc, ← hsplit]

end Ingestion

variable {cfg : Config} {origin : L1BlockRef} {ch : Channel}

theorem mapM_input_ok {numbers : List ℕ} (h : ∀ i ∈ numbers, (ch.inputs.lookup i).isSome) :
    ∃ datas, numbers.mapM ch.input = .ok datas := by
  induction numbers with
  | nil => exact ⟨[], rfl⟩
  | cons i numbers ih =>
    rw [forall_mem_cons] at h
    obtain ⟨data, hdata⟩ := Option.isSome_iff_exists.mp h.1
    obtain ⟨datas, hdatas⟩ := ih h.2
    refine ⟨data :: datas, ?_⟩
    rw [mapM_cons, hdatas, Channel.input, hdata]
    rfl

theorem reader_of_isReady (h : ch.isReady = true) : ∃ data, ch.reader = .ok data := by
  simp only [Channel.isReady, Bool.and_eq_true, all_eq_true] at h
  obtain ⟨datas, hdatas⟩ := mapM_input_ok h.2
  exact ⟨datas.flatten, by rw [Channel.reader, hdatas]; rfl⟩

inductive ReadEffect (cfg : Config) (origin : L1BlockRef) :
    ChannelBank → ChannelBank → Except Error Bytes → Prop
  | empty {channels} : ReadEffect cfg origin ⟨channels, []⟩ ⟨channels, []⟩ (.error .eof)
  | expired {channels id rest ch} (hch : channels.lookup id = some ch)
      (htimeout : timedOut cfg origin ch = true) :
      ReadEffect cfg origin ⟨channels, id :: rest⟩ ⟨channels.erase id, rest⟩ (.error .eof)
  | returned {channels id rest ch data} (hch : channels.lookup id = some ch)
      (htimeout : timedOut cfg origin ch = false) (hready : ch.isReady = true)
      (hdata : ch.reader = .ok data) :
      ReadEffect cfg origin ⟨channels, id :: rest⟩ ⟨channels.erase id, rest⟩ (.ok data)
  | waiting {channels id rest ch} (hch : channels.lookup id = some ch)
      (htimeout : timedOut cfg origin ch = false) (hready : ch.isReady = false) :
      ReadEffect cfg origin ⟨channels, id :: rest⟩ ⟨channels, id :: rest⟩ (.error .eof)

theorem Consistent.read_effect (cfg : Config) (origin : L1BlockRef) (h : bank.Consistent) :
    ReadEffect cfg origin bank (bank.read cfg origin).1 (bank.read cfg origin).2 := by
  obtain ⟨channels, queue⟩ := bank
  cases queue with
  | nil => exact .empty
  | cons =>
    obtain ⟨ch, hch⟩ := Matches.exists_head h
    simp only [ChannelBank.read, hch]
    split
    next htimeout => exact .expired hch htimeout
    next htimeout =>
      rw [Bool.not_eq_true] at htimeout
      split
      next hready =>
        obtain ⟨data, hdata⟩ := reader_of_isReady hready
        rw [hdata]
        exact .returned hch htimeout hready hdata
      next hready => exact .waiting hch htimeout (Bool.not_eq_true _ ▸ hready)

variable {result : Except Error Bytes} {after : ChannelBank}

theorem ReadEffect.keeps (hread : ReadEffect cfg origin bank after result) (h : bank.Consistent) :
    after.Consistent ∧ after.storedSize ≤ bank.storedSize ∧
      ∃ removed, bank.channelQueue = removed ++ after.channelQueue := by
  cases hread with
  | empty => exact ⟨h, le_rfl, [], rfl⟩
  | @expired channels id rest => exact ⟨h.pop, h.storedSize_pop_le, [id], rfl⟩
  | @returned channels id rest => exact ⟨h.pop, h.storedSize_pop_le, [id], rfl⟩
  | waiting => exact ⟨h, le_rfl, [], rfl⟩

theorem ReadEffect.result_cases (hread : ReadEffect cfg origin bank after result) :
    result = .error .eof ∨ ∃ data, result = .ok data := by
  cases hread with
  | returned => exact .inr ⟨_, rfl⟩
  | empty | expired | waiting => exact .inl rfl

theorem Consistent.read (h : bank.Consistent) (hread : bank.read cfg origin = (after, result)) :
    ReadEffect cfg origin bank after result ∧ after.Consistent ∧
      after.storedSize ≤ bank.storedSize ∧
      ∃ removed, bank.channelQueue = removed ++ after.channelQueue := by
  have heffect := h.read_effect cfg origin
  rw [hread] at heffect
  exact ⟨heffect, heffect.keeps h⟩

end ChannelBank

end Derive
