import TokamakTitan.Derive.ChannelOut
import TokamakTitan.Derive.DepositsOnce
import TokamakTitan.Derive.Reassembly

/-! From the blocks that the batch submitter writes to the batches that the derivation reads: the
frames of a closed channel are put together in any order. -/
namespace Derive
open List

/-- The frames are numbered from zero, and the last one is marked. -/
structure ChannelFrames (id : ChannelID) (frames : List Frame) : Prop where
  id : ∀ f ∈ frames, f.id = id
  numbers : frames.map (fun f => f.frameNumber.toNat) = List.range frames.length
  last : frames.map Frame.isLast = List.replicate (frames.length - 1) false ++ [true]

variable {frames : List Frame} {id : ChannelID} {f : Frame}

namespace ChannelFrames

variable (h : ChannelFrames id frames)
include h

theorem length_pos : 0 < frames.length := by
  have hlength := congrArg length h.last
  simp at hlength
  omega

variable {i : ℕ}

theorem number_getElem (hi : i < frames.length) : (frames[i]).frameNumber.toNat = i := by
  have hget := congrArg (fun numbers : List ℕ => numbers[i]?) h.numbers
  simpa [hi] using hget

theorem isLast_getElem (hi : i < frames.length) :
    (frames[i]).isLast = decide (i + 1 = frames.length) := by
  have hget := congrArg (fun flags : List Bool => flags[i]?) h.last
  by_cases hend : i + 1 = frames.length
  · have hlast : ¬ i < frames.length - 1 := by omega
    have hzero : i - (frames.length - 1) = 0 := by omega
    simpa [hi, hend, getElem?_append, hlast, hzero] using hget
  · have hinit : i < frames.length - 1 := by omega
    simpa [hi, hend, getElem?_append, hinit] using hget

theorem number_lt (hf : f ∈ frames) : f.frameNumber.toNat < frames.length := by
  obtain ⟨i, hi, rfl⟩ := getElem_of_mem hf
  rw [h.number_getElem hi]
  exact hi

theorem eq_of_number {g : Frame} (hf : f ∈ frames) (hg : g ∈ frames)
    (heq : f.frameNumber.toNat = g.frameNumber.toNat) : f = g := by
  obtain ⟨i, hi, rfl⟩ := getElem_of_mem hf
  obtain ⟨j, hj, rfl⟩ := getElem_of_mem hg
  rw [h.number_getElem hi, h.number_getElem hj] at heq
  subst heq
  rfl

theorem isLast_iff (hf : f ∈ frames) :
    f.isLast = true ↔ f.frameNumber.toNat + 1 = frames.length := by
  obtain ⟨i, hi, rfl⟩ := getElem_of_mem hf
  rw [h.isLast_getElem hi, h.number_getElem hi, decide_eq_true_eq]

theorem eq_of_isLast {g : Frame} (hf : f ∈ frames) (hg : g ∈ frames) (hflast : f.isLast = true)
    (hglast : g.isLast = true) : f = g := by
  rw [h.isLast_iff hf] at hflast
  rw [h.isLast_iff hg] at hglast
  exact h.eq_of_number hf hg (by omega)

theorem exists_number (hi : i < frames.length) : ∃ f ∈ frames, f.frameNumber.toNat = i :=
  ⟨frames[i], getElem_mem hi, h.number_getElem hi⟩

/-- A frame of the channel is only turned away by itself. -/
theorem mem_foldl_keep {offered : List Frame} (hsub : offered ⊆ frames) :
    f ∈ offered.foldl Channel.keep [] ↔ f ∈ offered := by
  induction offered using reverseRecOn generalizing f with
  | nil => rfl
  | append_singleton offered g ih =>
    have hsub' : offered ⊆ frames := fun x hx => hsub (mem_append_left _ hx)
    have hg : g ∈ frames := hsub (by simp)
    rw [foldl_append, foldl_cons, foldl_nil, Channel.keep, mem_append, mem_singleton]
    split
    next hkept =>
      have hmem : g ∈ offered := by
        rcases hkept with ⟨x, hx, hnumber⟩ | ⟨hlast, x, hx, hxlast⟩
        · rw [ih hsub'] at hx
          rwa [← h.eq_of_number (hsub' hx) hg (congrArg BitVec.toNat hnumber)]
        · rw [ih hsub'] at hx
          rwa [← h.eq_of_isLast (hsub' hx) hg hxlast hlast]
      rw [ih hsub']
      exact ⟨.inl, fun hf => hf.elim (fun hold => hold) fun heq => heq ▸ hmem⟩
    next => rw [mem_append, mem_singleton, ih hsub']

end ChannelFrames

namespace Channel

variable {ingested : List Frame} {ch : Channel}

variable (h : ch.Holds ingested)
include h

variable (hframes : ChannelFrames id frames)
include hframes

variable (hsub : ∀ g ∈ ingested, g ∈ frames)
include hsub

theorem Holds.endFrameNumber (hclosed : ch.closed = true) :
    ch.endFrameNumber.toNat + 1 = frames.length := by
  obtain ⟨f, hf, hlast⟩ := h.closed.mp hclosed
  rw [h.ended f hf hlast]
  exact (hframes.isLast_iff (hsub f hf)).mp hlast

theorem Holds.isReady_iff : ch.isReady = true ↔ ∀ f ∈ frames, f ∈ ingested := by
  rw [h.isReady_iff_exists]
  constructor
  · rintro ⟨last, hmem, hlast, hall, -⟩ f hf
    have hend := (hframes.isLast_iff (hsub last hmem)).mp hlast
    have hlt := hframes.number_lt hf
    obtain ⟨g, hg, hnumber⟩ := hall f.frameNumber.toNat (by omega)
    rw [hframes.eq_of_number hf (hsub g hg) hnumber.symm]
    exact hg
  · intro hall
    have hpos := hframes.length_pos
    have hindex : frames.length - 1 < frames.length := by omega
    have hlast : frames[frames.length - 1].isLast = true := by
      rw [hframes.isLast_getElem hindex]
      exact decide_eq_true (by omega)
    have hend := (hframes.isLast_iff (getElem_mem hindex)).mp hlast
    refine ⟨frames[frames.length - 1], hall _ (getElem_mem hindex), hlast, ?_, ?_⟩
    · intro i hi
      obtain ⟨f, hf, hnumber⟩ := hframes.exists_number (i := i) (by omega)
      exact ⟨f, hall f hf, hnumber⟩
    · intro g hg
      have hlt := hframes.number_lt (hsub g hg)
      omega

theorem Holds.reader_eq (hready : ch.isReady = true) :
    ch.reader = .ok (frames.flatMap Frame.data) := by
  have hall := (h.isReady_iff hframes hsub).mp hready
  have hclosed : ch.closed = true := by
    simp only [isReady, Bool.and_eq_true] at hready
    exact hready.1.1
  have hinput : ∀ f ∈ frames, ch.input f.frameNumber.toNat = .ok f.data := by
    intro f hf
    have hlookup := (h.inputs f.frameNumber.toNat f.data).mpr ⟨f, hall f hf, rfl, rfl⟩
    rw [Channel.input, hlookup]
  have hmap : (range (ch.endFrameNumber.toNat + 1)).mapM ch.input =
      .ok (frames.map Frame.data) := by
    rw [h.endFrameNumber hframes hsub hclosed, ← hframes.numbers, Checked.mapM_eq_ok,
      forall₂_map_left_iff, forall₂_map_right_iff]
    exact forall₂_same.mpr hinput
  rw [reader, hmap, flatMap_def]
  rfl

end Channel

/-- Blocks that have a batch, and room for at least one byte of data in every frame. -/
def ChannelOutCall.Allowed (codec : TxCodec) : ChannelOutCall → Prop
  | .addBlock block => StartsWithInfo codec block
  | .flush => True
  | .outputFrame maxSize => 49 ≤ maxSize

def Batches (codec : TxCodec) (blocks : List ExecutionPayload) (batches : List BatchData) : Prop :=
  List.Forall₂ (fun block batch => blockToBatch codec block = .ok batch) blocks batches

namespace ChannelOut

variable {zlib : Zlib.Codec} {codec : TxCodec} {co : ChannelOut zlib}
  {blocks : List ExecutionPayload} {out : Bytes}

structure Emitted (co : ChannelOut zlib) (frames : List Frame) (out : Bytes) : Prop where
  counted : co.frame = BitVec.ofNat 64 frames.length
  id : ∀ f ∈ frames, f.id = co.id
  numbers : frames.map Frame.frameNumber = (List.range frames.length).map (BitVec.ofNat 16)
  data : frames.flatMap Frame.data ++ co.buf = out

theorem buf_eq_append (co : ChannelOut zlib) (maxSize : Uint64) :
    co.buf = (co.nextFrame maxSize).data ++ (co.outputFrame maxSize).1.buf := by
  have htaken : co.buf.drop (co.nextFrame maxSize).data.length =
      co.buf.drop (maxSize - 47 - 1).toNat := by
    simp only [nextFrame, length_take]
    rcases Nat.le_total (maxSize - 47 - 1).toNat co.buf.length with hle | hle
    · rw [Nat.min_eq_left hle]
    · rw [Nat.min_eq_right hle, drop_length, drop_eq_nil_of_le hle]
  simp only [ChannelOut.outputFrame, htaken]
  exact (take_append_drop _ _).symm

theorem Emitted.frameNumber_nextFrame (h : co.Emitted frames out) (maxSize : Uint64) :
    (co.nextFrame maxSize).frameNumber = BitVec.ofNat 16 frames.length := by
  simp only [nextFrame, h.counted]
  exact BitVec.setWidth_ofNat_of_le (by norm_num) frames.length

theorem Emitted.outputFrame (h : co.Emitted frames out) (maxSize : Uint64) :
    (co.outputFrame maxSize).1.Emitted (frames ++ [co.nextFrame maxSize]) out where
  counted := by
    simp only [ChannelOut.outputFrame, h.counted, length_append, length_singleton]
    exact BitVec.ofNat_add_ofNat frames.length 1
  id := by
    intro f hf
    rcases mem_append.mp hf with hf | hf
    · exact h.id f hf
    · rw [mem_singleton.mp hf]
      rfl
  numbers := by
    rw [map_append, h.numbers, length_append, length_singleton, range_succ, map_append,
      map_singleton, map_singleton, h.frameNumber_nextFrame]
  data := by
    rw [← h.data, flatMap_append, flatMap_singleton, append_assoc, ← co.buf_eq_append]

theorem Emitted.extend {next : ChannelOut zlib} {more : Bytes} (h : co.Emitted frames out)
    (hnext : (next.id, next.frame, next.buf) = (co.id, co.frame, co.buf ++ more)) :
    next.Emitted frames (out ++ more) := by
  simp only [Prod.mk.injEq] at hnext
  obtain ⟨hid, hframe, hbuf⟩ := hnext
  refine ⟨hframe.trans h.counted, fun f hf => (h.id f hf).trans hid.symm, h.numbers, ?_⟩
  rw [hbuf, ← append_assoc, h.data]

/-- A channel that is not closed yet, the blocks in it and the frames put out of it. -/
structure Open (codec : TxCodec) (co : ChannelOut zlib) (blocks : List ExecutionPayload)
    (frames : List Frame) : Prop where
  closed : co.closed = false
  notLast : ∀ f ∈ frames, f.isLast = false
  written : ∃ batches out, Batches codec blocks batches ∧ co.Emitted frames out ∧
    zlib.Produced (batches.flatMap BatchData.encodeRLP) co.compress out

theorem open_newChannelOut (codec : TxCodec) (id : ChannelID) :
    (newChannelOut zlib id).Open codec [] [] where
  closed := rfl
  notLast := by simp
  written := ⟨[], [], .nil, ⟨rfl, by simp, rfl, rfl⟩, .start⟩

theorem Open.call (h : co.Open codec blocks frames) {c : ChannelOutCall} (hc : c.Allowed codec) :
    ∃ next emitted, co.call codec c = .ok (next, emitted.map Frame.marshalBinary) ∧
      next.id = co.id ∧ next.Open codec (blocks ++ c.block?.toList) (frames ++ emitted) := by
  obtain ⟨batches, out, hbatches, hemitted, hproduced⟩ := h.written
  cases c with
  | addBlock =>
    obtain ⟨batch, hbatch⟩ := StartsWithInfo.blockToBatch hc
    refine ⟨{ co with
      compress := (zlib.write co.compress batch.encodeRLP).1
      buf := co.buf ++ (zlib.write co.compress batch.encodeRLP).2 }, [], ?_, rfl, h.closed, ?_, ?_⟩
    · simp [ChannelOut.call, addBlock, h.closed, hbatch, Except.map]
    · simpa using h.notLast
    · refine ⟨batches ++ [batch], out ++ (zlib.write co.compress batch.encodeRLP).2, ?_, ?_, ?_⟩
      · exact rel_append hbatches (.cons hbatch .nil)
      · rw [append_nil]
        exact hemitted.extend rfl
      · rw [flatMap_append, flatMap_singleton]
        exact hproduced.write batch.encodeRLP
  | flush =>
    refine ⟨{ co with
      compress := (zlib.flush co.compress).1
      buf := co.buf ++ (zlib.flush co.compress).2 }, [], ?_, rfl, h.closed, ?_, ?_⟩
    · simp [ChannelOut.call, flush, h.closed, Except.map]
    · simpa using h.notLast
    · refine ⟨batches, out ++ (zlib.flush co.compress).2, ?_, ?_, hproduced.flush⟩
      · simpa [ChannelOutCall.block?] using hbatches
      · rw [append_nil]
        exact hemitted.extend rfl
  | outputFrame maxSize =>
    have hlast : (co.nextFrame maxSize).isLast = false := by simp [nextFrame, h.closed]
    refine ⟨(co.outputFrame maxSize).1, [co.nextFrame maxSize], ?_, rfl, h.closed, ?_, ?_⟩
    · simp [ChannelOut.call, outputFrame, hlast]
    · intro f hf
      rcases mem_append.mp hf with hf | hf
      · exact h.notLast f hf
      · rw [mem_singleton.mp hf]
        exact hlast
    · refine ⟨batches, out, ?_, hemitted.outputFrame maxSize, hproduced⟩
      simpa [ChannelOutCall.block?] using hbatches

theorem Open.run {calls : List ChannelOutCall} (hcalls : ∀ c ∈ calls, c.Allowed codec)
    (h : co.Open codec blocks frames) :
    ∃ next emitted, run codec calls co = .ok (next, emitted.map Frame.marshalBinary) ∧
      next.id = co.id ∧
      next.Open codec (blocks ++ calls.filterMap ChannelOutCall.block?) (frames ++ emitted) := by
  induction calls generalizing co blocks frames with
  | nil => exact ⟨co, [], rfl, rfl, by simpa using h⟩
  | cons c calls ih =>
    obtain ⟨mid, first, hcall, hmid, hopen⟩ := h.call (hcalls c mem_cons_self)
    obtain ⟨next, emitted, hrun, hid, hnext⟩ :=
      ih (fun d hd => hcalls d (mem_cons_of_mem c hd)) hopen
    refine ⟨next, first ++ emitted, ?_, hid.trans hmid, ?_⟩
    · rw [ChannelOut.run, hcall, Checked.ok_bind]
      simp only [hrun, Checked.ok_bind, map_append]
      rfl
    · have hblocks : blocks ++ (c :: calls).filterMap ChannelOutCall.block? =
          blocks ++ c.block?.toList ++ calls.filterMap ChannelOutCall.block? := by
        cases hblock : c.block? <;> simp [hblock]
      rw [hblocks, ← append_assoc]
      exact hnext

variable {maxSize : Uint64}

theorem drain_last (h : (co.nextFrame maxSize).isLast = true) (sizes : List Uint64) :
    drain (maxSize :: sizes) co = ([(co.nextFrame maxSize).marshalBinary], some .eof) := by
  simp [drain, outputFrame, h]

theorem drain_next (h : (co.nextFrame maxSize).isLast = false) (sizes : List Uint64) :
    drain (maxSize :: sizes) co =
      ((co.nextFrame maxSize).marshalBinary :: (drain sizes (co.outputFrame maxSize).1).1,
        (drain sizes (co.outputFrame maxSize).1).2) := by
  simp [drain, outputFrame, h]

variable {sizes : List Uint64}

theorem Emitted.drain {outs : List Bytes} (hclosed : co.closed = true) (h : co.Emitted frames out)
    (hdrain : drain sizes co = (outs, some .eof)) :
    ∃ (next : ChannelOut zlib) (init : List Frame) (last : Frame),
      outs = (init ++ [last]).map Frame.marshalBinary ∧ next.id = co.id ∧ next.buf = [] ∧
      (∀ f ∈ init, f.isLast = false) ∧ last.isLast = true ∧
      next.Emitted (frames ++ (init ++ [last])) out := by
  induction sizes generalizing co frames outs with
  | nil => cases hdrain
  | cons maxSize sizes ih =>
    have hnext := h.outputFrame maxSize
    cases hlast : (co.nextFrame maxSize).isLast with
    | true =>
      rw [drain_last hlast] at hdrain
      have hroom : co.buf.length < (maxSize - 47 - 1).toNat := by
        simp only [nextFrame, hclosed, Bool.true_and, decide_eq_true_eq] at hlast
        exact hlast
      refine ⟨(co.outputFrame maxSize).1, [], co.nextFrame maxSize, (Prod.mk.inj hdrain).1.symm,
        rfl, ?_, by simp, hlast, hnext⟩
      simp only [ChannelOut.outputFrame, nextFrame, take_of_length_le hroom.le, drop_length]
    | false =>
      rw [drain_next hlast] at hdrain
      obtain ⟨houts, hend⟩ := Prod.mk.inj hdrain
      have hclosed' : (co.outputFrame maxSize).1.closed = true := hclosed
      obtain ⟨next, init, last, hrest, hid, hbuf, hinit, hlast', hemitted⟩ :=
        ih hclosed' hnext (Prod.ext rfl hend)
      refine ⟨next, co.nextFrame maxSize :: init, last, ?_, hid, hbuf, ?_, hlast', ?_⟩
      · rw [← houts, cons_append, map_cons, ← hrest]
      · intro f hf
        rcases mem_cons.mp hf with rfl | hf
        · exact hlast
        · exact hinit f hf
      · simpa using hemitted

theorem drain_eof (hclosed : co.closed = true) (hsizes : ∀ maxSize ∈ sizes, 49 ≤ maxSize)
    (hlength : co.buf.length < sizes.length) : (drain sizes co).2 = some .eof := by
  induction sizes generalizing co with
  | nil => simp at hlength
  | cons maxSize sizes ih =>
    have hsize : 1 ≤ (maxSize - 47 - 1).toNat := by
      have hmax := hsizes maxSize mem_cons_self
      bv_omega
    by_cases hroom : co.buf.length < (maxSize - 47 - 1).toNat
    · have hlast : (co.nextFrame maxSize).isLast = true := by
        simp only [nextFrame, hclosed, Bool.true_and, decide_eq_true hroom]
      rw [drain_last hlast]
    · have hlast : (co.nextFrame maxSize).isLast = false := by
        simp only [nextFrame, decide_eq_false hroom, Bool.and_false]
      have hclosed' : (co.outputFrame maxSize).1.closed = true := hclosed
      have hrest : (co.outputFrame maxSize).1.buf.length < sizes.length := by
        simp only [outputFrame, nextFrame, length_drop, length_take, length_cons] at hlength ⊢
        omega
      rw [drain_next hlast]
      exact ih hclosed' (fun s hs => hsizes s (mem_cons_of_mem maxSize hs)) hrest

theorem Emitted.channelFrames {init : List Frame} {last : Frame}
    (h : co.Emitted (init ++ [last]) out) (hcount : (init ++ [last]).length ≤ 65536)
    (hinit : ∀ f ∈ init, f.isLast = false) (hlast : last.isLast = true) :
    ChannelFrames co.id (init ++ [last]) where
  id := h.id
  numbers := by
    have hmap : (init ++ [last]).map (fun f => f.frameNumber.toNat) =
        ((init ++ [last]).map Frame.frameNumber).map BitVec.toNat := by
      rw [map_map]
      rfl
    rw [hmap, h.numbers, map_map]
    conv_rhs => rw [← map_id (range (init ++ [last]).length)]
    apply map_congr_left
    intro i hi
    rw [mem_range] at hi
    simp only [Function.comp_apply, BitVec.toNat_ofNat, id_eq]
    omega
  last := by
    rw [map_append, map_singleton, hlast, length_append, length_singleton, Nat.add_sub_cancel]
    congr 1
    exact eq_replicate_iff.mpr ⟨length_map _, fun b hb => by
      obtain ⟨f, hf, rfl⟩ := mem_map.mp hb
      exact hinit f hf⟩

end ChannelOut

/-- Whatever frames of a channel are ingested, the batches are read once all of them are. -/
def ReadsBack (zlib : Zlib.Codec) (id : ChannelID) (frames : List Frame)
    (batches : List BatchData) : Prop :=
  ∀ (openBlock l1InclusionBlock : L1BlockRef) (added : List (Frame × L1BlockRef)),
    (∀ x ∈ added, x.1 ∈ frames) →
      ((added.foldl Channel.ingest (newChannel id openBlock)).isReady = true ↔
        ∀ f ∈ frames, f ∈ added.map Prod.fst) ∧
      ((added.foldl Channel.ingest (newChannel id openBlock)).isReady = true →
        ∃ data r, (added.foldl Channel.ingest (newChannel id openBlock)).reader = .ok data ∧
          BatchReader.new zlib data l1InclusionBlock = .ok r ∧
          r.Reads (batches.map fun batch => { l1InclusionBlock, batch }))

variable {batches : List BatchData}

theorem readsBack_of_inflate {zlib : Zlib.Codec} {id : ChannelID} {frames : List Frame}
    (hframes : ChannelFrames id frames) (hinflate : zlib.inflate (frames.flatMap Frame.data) = .ok {
      data := batches.flatMap BatchData.encodeRLP, failure := none })
    (htotal : (batches.flatMap BatchData.encodeRLP).length ≤ maxRLPBytesPerChannel) :
    ReadsBack zlib id frames batches := by
  intro openBlock l1InclusionBlock added hadded
  obtain ⟨-, hholds, hkept, -⟩ :=
    Channel.holds_accepted openBlock fun x hx => hframes.id x.1 (hadded x hx)
  have hoffered : added.map Prod.fst ⊆ frames := by
    intro g hg
    obtain ⟨x, hx, rfl⟩ := mem_map.mp hg
    exact hadded x hx
  have hmem (f : Frame) :
      f ∈ (newChannel id openBlock).accepted added ↔ f ∈ added.map Prod.fst := by
    rw [hkept, hframes.mem_foldl_keep hoffered]
  have hsub : ∀ g ∈ (newChannel id openBlock).accepted added, g ∈ frames :=
    fun g hg => hoffered ((hmem g).mp hg)
  refine ⟨(hholds.isReady_iff hframes hsub).trans (by simp only [hmem]), fun hready => ?_⟩
  have hlimit : maxRLPBytesPerChannel < 2 ^ 64 := by norm_num [maxRLPBytesPerChannel]
  let r : BatchReader := {
    data := batches.flatMap BatchData.encodeRLP
    failure := none
    remaining := maxRLPBytesPerChannel
    l1InclusionBlock }
  refine ⟨_, r, hholds.reader_eq hframes hsub hready, ?_, ?_⟩
  · rw [BatchReader.new, hinflate]
  · exact BatchReader.reads_encodeRLP rfl rfl htotal hlimit

/-- The calls of a batch submitter succeed, the frames come to an end, and from the frames of a
session that has ended the batches of its blocks are read back. -/
theorem channelSession_decoded {zlib : Zlib.Codec} (hlossless : zlib.Lossless) (codec : TxCodec)
    (id : ChannelID) (calls : List ChannelOutCall) (hcalls : ∀ c ∈ calls, c.Allowed codec) :
    (∃ ready, ∀ sizes : List Uint64, ready < sizes.length → (∀ maxSize ∈ sizes, 49 ≤ maxSize) →
      ∃ outs, channelSession zlib codec id calls sizes = .ok (outs, some .eof)) ∧
    ∃ batches, Batches codec (calls.filterMap ChannelOutCall.block?) batches ∧
      ∀ sizes outs, channelSession zlib codec id calls sizes = .ok (outs, some .eof) →
        outs.length ≤ 65536 →
        ∃ frames, outs = frames.map Frame.marshalBinary ∧ ChannelFrames id frames ∧
          ((∀ f ∈ frames, f.data.length ≤ maxFrameLen) →
            ∀ stored, stored ≠ [] → (∀ f ∈ stored, f ∈ frames) →
              parseFrames (derivationVersion0 :: stored.flatMap Frame.marshalBinary) =
                .ok stored) ∧
          ((batches.flatMap BatchData.encodeRLP).length ≤ maxRLPBytesPerChannel →
            ReadsBack zlib id frames batches) := by
  have hnew : (newChannelOut zlib id).Open codec [] [] := ChannelOut.open_newChannelOut codec id
  obtain ⟨co, emitted, hrun, hid, hopen⟩ := hnew.run hcalls
  obtain ⟨batches, out, hbatches, hemitted, hproduced⟩ := hopen.written
  let closed : ChannelOut zlib :=
    { co with closed := true, buf := co.buf ++ zlib.close co.compress }
  have hclose : co.close = .ok closed := by simp [ChannelOut.close, hopen.closed, closed]
  have hsession (sizes : List Uint64) : channelSession zlib codec id calls sizes =
      .ok (emitted.map Frame.marshalBinary ++ (closed.drain sizes).1, (closed.drain sizes).2) := by
    rw [channelSession, hrun, Checked.ok_bind]
    simp only [hclose, Checked.ok_bind]
    rfl
  have hclosed : closed.Emitted emitted (out ++ zlib.close co.compress) :=
    hemitted.extend rfl
  refine ⟨⟨closed.buf.length, ?_⟩, batches, ?_, ?_⟩
  · intro sizes hlength hsizes
    exact ⟨_, (hsession sizes).trans (by rw [ChannelOut.drain_eof rfl hsizes hlength])⟩
  · simpa using hbatches
  · intro sizes outs hend hcount
    rw [hsession] at hend
    obtain ⟨houts, heof⟩ := Prod.mk.inj (Except.ok.inj hend)
    obtain ⟨last, init, final, hrest, hlastId, hbuf, hinit, hfinal, hall⟩ :=
      hclosed.drain rfl (Prod.ext rfl heof)
    have hframes : outs = (emitted ++ (init ++ [final])).map Frame.marshalBinary := by
      rw [← houts, List.map_append, ← hrest]
    rw [← List.append_assoc] at hall hframes
    have hcount' : (emitted ++ init ++ [final]).length ≤ 65536 := by
      rw [hframes, List.length_map] at hcount
      exact hcount
    have hnotLast : ∀ f ∈ emitted ++ init, f.isLast = false := by
      intro f hf
      rcases List.mem_append.mp hf with hf | hf
      · exact hopen.notLast f (by simpa using hf)
      · exact hinit f hf
    have hchannel := hall.channelFrames hcount' hnotLast hfinal
    rw [hlastId, show closed.id = id from hid] at hchannel
    refine ⟨emitted ++ init ++ [final], hframes, hchannel, ?_, ?_⟩
    · intro hdata stored hne hstored
      exact parseFrames_marshalBinary hne fun f hf => hdata f (hstored f hf)
    · intro htotal
      apply readsBack_of_inflate hchannel _ htotal
      have hwhole := hall.data
      rw [hbuf, List.append_nil] at hwhole
      rw [hwhole]
      exact hlossless hproduced

def submittedInfo : BlockInfo where
  hash := 0xb1
  parentHash := 0xb0
  number := 101
  time := 1000
  mixDigest := 0
  baseFee := 7

def submittedInfoTx : DepositTx := l1InfoDeposit epochKeccak256 0 submittedInfo

def submittedInfoBytes : Bytes :=
  match depositCodec.marshalBinary submittedInfoTx with
  | .ok b => b
  | .error _ => []

def submittedBlock (number : Uint64) (tx : Bytes) : ExecutionPayload where
  parentHash := number.setWidth 256
  feeRecipient := 0
  prevRandao := 0
  blockNumber := number
  gasLimit := 30000000
  timestamp := 1000 + 2 * number
  extraData := []
  blockHash := number.setWidth 256 + 1
  transactions := [submittedInfoBytes, tx]

def submittedCalls : List ChannelOutCall :=
  [.outputFrame 49, .addBlock (submittedBlock 1 [2, 0xaa]), .flush, .outputFrame 300,
    .addBlock (submittedBlock 2 [2, 0xbb])]

theorem startsWithInfo_submittedBlock (number : Uint64) (tx : Bytes) :
    StartsWithInfo depositCodec (submittedBlock number tx) := by
  have hmarshal : depositCodec.marshalBinary submittedInfoTx = .ok submittedInfoBytes := by
    decide +kernel
  exact ⟨submittedInfoBytes, [tx], _, _, rfl, depositCodec.unmarshal_marshal hmarshal, rfl,
    l1InfoDepositTxData_l1InfoDeposit epochKeccak256 0 submittedInfo⟩

theorem submittedCalls_allowed : ∀ c ∈ submittedCalls, c.Allowed depositCodec := by
  intro c hc
  simp only [submittedCalls, mem_cons, not_mem_nil, or_false] at hc
  rcases hc with rfl | rfl | rfl | rfl | rfl
  · exact (by decide : (49 : Uint64) ≤ 49)
  · exact startsWithInfo_submittedBlock 1 [2, 0xaa]
  · trivial
  · exact (by decide : (49 : Uint64) ≤ 300)
  · exact startsWithInfo_submittedBlock 2 [2, 0xbb]

def submittedBatches : List BatchData :=
  [{ parentHash := 1, epochNum := 101, epochHash := 0xb1, timestamp := 1002,
      transactions := [[2, 0xaa]] },
    { parentHash := 2, epochNum := 101, epochHash := 0xb1, timestamp := 1004,
      transactions := [[2, 0xbb]] }]

theorem batches_submittedCalls
    (h : Batches depositCodec (submittedCalls.filterMap ChannelOutCall.block?) batches) :
    batches = submittedBatches := by
  have hmap : (submittedCalls.filterMap ChannelOutCall.block?).map (blockToBatch depositCodec) =
      submittedBatches.map .ok := by
    decide +kernel
  have hbatches : (submittedCalls.filterMap ChannelOutCall.block?).map
      (blockToBatch depositCodec) = batches.map .ok := by
    rw [← forall₂_eq_eq_eq, forall₂_map_left_iff, forall₂_map_right_iff]
    exact h
  exact (map_injective_iff.mpr fun _ _ => Except.ok.inj) (hbatches.symm.trans hmap)

theorem submittedCalls_end :
    (channelSession Zlib.stored depositCodec 0xc submittedCalls [500, 400]).map
      (fun r => (r.1.length, r.1.all fun out => out.length ≤ maxFrameLen, r.2)) =
      .ok (4, true, some .eof) := by
  decide +kernel

theorem channelSession_decoded_sample :
    ∃ outs frames, channelSession Zlib.stored depositCodec 0xc submittedCalls [500, 400] =
        .ok (outs, some .eof) ∧
      outs = frames.map Frame.marshalBinary ∧ ChannelFrames 0xc frames ∧
      parseFrames (derivationVersion0 :: frames.flatMap Frame.marshalBinary) = .ok frames ∧
      ReadsBack Zlib.stored 0xc frames submittedBatches := by
  obtain ⟨-, batches, hbatches, hdecoded⟩ := channelSession_decoded Zlib.stored_lossless
    depositCodec 0xc submittedCalls submittedCalls_allowed
  obtain rfl := batches_submittedCalls hbatches
  have hend := submittedCalls_end
  cases hsession : channelSession Zlib.stored depositCodec 0xc submittedCalls [500, 400] with
  | error =>
    rw [hsession] at hend
    cases hend
  | ok r =>
    obtain ⟨outs, err⟩ := r
    rw [hsession] at hend
    have hvalues : (outs.length, outs.all fun out => out.length ≤ maxFrameLen, err) =
        (4, true, some .eof) := Except.ok.inj hend
    simp only [Prod.mk.injEq, List.all_eq_true, decide_eq_true_eq] at hvalues
    obtain ⟨hcount, hsmall, rfl⟩ := hvalues
    have hlength : outs.length ≤ 65536 := by omega
    obtain ⟨frames, houts, hframes, hparse, hread⟩ := hdecoded [500, 400] outs hsession hlength
    have hdata : ∀ f ∈ frames, f.data.length ≤ maxFrameLen := by
      intro f hf
      rw [houts] at hsmall
      exact f.length_data_le.trans (hsmall _ (List.mem_map_of_mem hf))
    have hne : frames ≠ [] := List.ne_nil_of_length_pos hframes.length_pos
    have htotal : (submittedBatches.flatMap BatchData.encodeRLP).length ≤
        maxRLPBytesPerChannel := by
      decide +kernel
    exact ⟨outs, frames, rfl, houts, hframes, hparse hdata frames hne fun _ hf => hf, hread htotal⟩

namespace ChannelOut

variable {zlib : Zlib.Codec} {codec : TxCodec} {co : ChannelOut zlib} {out : Bytes}

/-- What the calls on a channel lead to, and the frames that were put out of it. A call that fails
leaves the channel as it is. -/
inductive AfterCalls (codec : TxCodec) (id : ChannelID) : ChannelOut zlib → List Frame → Prop
  | new : AfterCalls codec id (newChannelOut zlib id) []
  | called {co next : ChannelOut zlib} {frames : List Frame} {block : ExecutionPayload}
      (h : AfterCalls codec id co frames)
      (hcall : co.addBlock codec block = .ok next ∨ co.flush = .ok next ∨ co.close = .ok next) :
      AfterCalls codec id next frames
  | output {co : ChannelOut zlib} {frames : List Frame} (h : AfterCalls codec id co frames)
      (maxSize : Uint64) :
      AfterCalls codec id (co.outputFrame maxSize).1 (frames ++ [co.nextFrame maxSize])

theorem AfterCalls.emitted (h : AfterCalls codec id co frames) : ∃ out, co.Emitted frames out := by
  induction h with
  | new => exact ⟨[], rfl, by simp, rfl, rfl⟩
  | called h hcall ih =>
    obtain ⟨out, ih⟩ := ih
    unfold addBlock flush close at hcall
    rcases hcall with hadd | hflush | hclose
    · split at hadd
      next => cases hadd
      next =>
        split at hadd <;> cases hadd
        exact ⟨_, ih.extend rfl⟩
    · split at hflush <;> cases hflush
      exact ⟨_, ih.extend rfl⟩
    · split at hclose <;> cases hclose
      exact ⟨_, ih.extend rfl⟩
  | output h maxSize ih =>
    obtain ⟨out, ih⟩ := ih
    exact ⟨out, ih.outputFrame maxSize⟩

/-- What a call of `OutputFrame` after `frames` should do: fail and leave all as it is, or write one
frame that fits, with a number of its own and the next bytes of the stream. -/
def OutputSound (co : ChannelOut zlib) (frames : List Frame) (maxSize : Uint64) : Prop :=
  let (next, written, err) := co.outputFrame maxSize
  let f := co.nextFrame maxSize
  (∃ e, err = some e ∧ e ≠ .eof ∧ written = [] ∧ next.buf = co.buf ∧ next.frame = co.frame) ∨
    (written = f.marshalBinary ∧ f.data.length < 2 ^ 32 ∧ 1 + written.length ≤ maxSize.toNat ∧
      (∀ g ∈ frames, g.frameNumber ≠ f.frameNumber) ∧ co.buf = f.data ++ next.buf)

theorem Emitted.fresh_iff (h : co.Emitted frames out) (maxSize : Uint64) :
    (∀ g ∈ frames, g.frameNumber ≠ (co.nextFrame maxSize).frameNumber) ↔
      frames.length < 2 ^ 16 := by
  have hmem (number : BitVec 16) : (∀ g ∈ frames, g.frameNumber ≠ number) ↔
      ∀ i < frames.length, BitVec.ofNat 16 i ≠ number := by
    have hnumbers : number ∉ frames.map Frame.frameNumber ↔
        number ∉ (List.range frames.length).map (BitVec.ofNat 16) := by rw [h.numbers]
    simpa using hnumbers
  rw [hmem, h.frameNumber_nextFrame maxSize]
  simp only [ne_eq, BitVec.toNat_eq, BitVec.toNat_ofNat]
  constructor
  · intro hfresh
    by_contra hge
    exact hfresh (frames.length - 2 ^ 16) (by omega) (by omega)
  · intro hlt i hi
    omega

theorem length_marshalBinary_le_iff (co : ChannelOut zlib) (maxSize : Uint64) :
    1 + (co.nextFrame maxSize).marshalBinary.length ≤ maxSize.toNat ↔
      48 ≤ maxSize.toNat ∨ 24 + co.buf.length ≤ maxSize.toNat := by
  have hroom : (maxSize - 47 - 1).toNat = (2 ^ 64 + maxSize.toNat - 48) % 2 ^ 64 := by
    bv_omega
  have hlt := maxSize.isLt
  rw [Frame.length_marshalBinary, nextFrame, length_take, hroom]
  omega

/-- A frame is put out as it should be exactly if there is room for it, its length fits its field
and fewer than `2 ^ 16` frames came before it. -/
theorem outputFrame_sound_iff (h : AfterCalls codec id co frames) (maxSize : Uint64) :
    co.OutputSound frames maxSize ↔
      (48 ≤ maxSize.toNat ∨ 24 + co.buf.length ≤ maxSize.toNat) ∧
      (co.nextFrame maxSize).data.length < 2 ^ 32 ∧ frames.length < 2 ^ 16 := by
  obtain ⟨out, hemitted⟩ := h.emitted
  rw [← length_marshalBinary_le_iff, ← hemitted.fresh_iff maxSize]
  constructor
  · rintro (⟨e, herr, heof, -⟩ | ⟨-, hlength, hfits, hfresh, -⟩)
    · change (if (co.nextFrame maxSize).isLast = true then some .eof else none) = some e at herr
      split at herr <;> cases herr
      exact absurd rfl heof
    · exact ⟨hfits, hlength, hfresh⟩
  · rintro ⟨hfits, hlength, hfresh⟩
    exact .inr ⟨rfl, hlength, hfits, hfresh, co.buf_eq_append maxSize⟩

/-- A channel with a block in it. -/
def filled : ChannelOut Zlib.stored :=
  ((newChannelOut Zlib.stored 7).addBlock depositCodec (submittedBlock 1 [2, 0xaa])).toOption.getD
    (newChannelOut Zlib.stored 7)

/-- The second frame of a channel, when the first one did not hold its whole block. -/
theorem outputFrame_sound_iff_second :
    (filled.outputFrame 100).1.OutputSound [filled.nextFrame 100] 200 ∧
      ((filled.outputFrame 100).1.nextFrame 200).data.length = 152 := by
  have hfilled : AfterCalls depositCodec 7 filled [] :=
    .called .new (.inl (Checked.eq_ok_getD (by decide +kernel)))
  refine ⟨(outputFrame_sound_iff (.output hfilled 100) 200).mpr ?_, by decide +kernel⟩
  exact ⟨.inl (by decide), by decide +kernel, by decide⟩

theorem outputFrame_without_room : ¬ (newChannelOut Zlib.stored 7).OutputSound [] 0 := by
  rintro (⟨e, herr, -⟩ | ⟨-, -, hfits, -⟩)
  · cases herr
  · exact absurd hfits (by simp)

end ChannelOut

end Derive
