import Mathlib.Data.List.AList
import TokamakTitan.Library.Zlib
import TokamakTitan.Derive.BatchCodec
import TokamakTitan.Derive.Frame

/-! Channels: frames are collected in any order, and the batches are read from the whole. -/
namespace Derive

def frameOverhead : Uint64 := 200

structure Channel where
  id : ChannelID
  openBlock : L1BlockRef
  size : Uint64
  closed : Bool
  endFrameNumber : BitVec 16
  inputs : AList fun _ : ℕ => Bytes
  highestL1InclusionBlock : L1BlockRef
  deriving DecidableEq

def newChannel (id : ChannelID) (openBlock : L1BlockRef) : Channel where
  id
  openBlock
  size := 0
  closed := false
  endFrameNumber := 0
  inputs := ∅
  highestL1InclusionBlock := L1BlockRef.zero

namespace Channel

variable (ch : Channel)

def addFrame (frame : Frame) (l1InclusionBlock : L1BlockRef) : Except String Channel :=
  let expected := ch.id.string
  if frame.id ≠ ch.id then
    let got := frame.id.string
    .error s!"frame id does not match channel id. Expected {expected}, got {got}"
  else if frame.isLast ∧ ch.closed then
    .error s!"cannot add ending frame to a closed channel. id {expected}"
  else if frame.frameNumber.toNat ∈ ch.inputs then .error "duplicate frame"
  else .ok { ch with
    endFrameNumber := if frame.isLast then frame.frameNumber else ch.endFrameNumber
    closed := ch.closed || frame.isLast
    highestL1InclusionBlock :=
      if ch.highestL1InclusionBlock.number < l1InclusionBlock.number then l1InclusionBlock
      else ch.highestL1InclusionBlock
    inputs := ch.inputs.insert frame.frameNumber.toNat frame.data
    size := ch.size + (BitVec.ofNat 64 frame.data.length + frameOverhead) }

def isReady : Bool :=
  ch.closed && decide (ch.inputs.keys.length = ch.endFrameNumber.toNat + 1) &&
    (List.range (ch.endFrameNumber.toNat + 1)).all fun i => (ch.inputs.lookup i).isSome

def input (i : ℕ) : Except Error Bytes :=
  match ch.inputs.lookup i with
  | some data => .ok data
  | none => .error .panic

def reader : Except Error Bytes :=
  ((List.range (ch.endFrameNumber.toNat + 1)).mapM ch.input).map List.flatten

def ingest (added : Frame × L1BlockRef) : Channel :=
  match ch.addFrame added.1 added.2 with
  | .ok next => next
  | .error _ => ch

structure Added (ch : Channel) (f : Frame) (next : Channel) : Prop where
  fresh : f.frameNumber.toNat ∉ ch.inputs
  single : ¬ (f.isLast = true ∧ ch.closed = true)
  id : next.id = ch.id
  closed : next.closed = (ch.closed || f.isLast)
  ended : next.endFrameNumber = if f.isLast then f.frameNumber else ch.endFrameNumber
  inputs : next.inputs = ch.inputs.insert f.frameNumber.toNat f.data
  size : next.size = ch.size + (BitVec.ofNat 64 f.data.length + frameOverhead)

variable {l1InclusionBlock : L1BlockRef} {ch : Channel} {f : Frame}

theorem added_of_addFrame {next : Channel} (h : ch.addFrame f l1InclusionBlock = .ok next) :
    ch.Added f next := by
  unfold addFrame at h
  dsimp only at h
  split at h
  next => cases h
  next =>
    split at h
    next => cases h
    next hsingle =>
      split at h
      next => cases h
      next hfresh =>
        cases h
        exact ⟨hfresh, hsingle, rfl, rfl, rfl, rfl, rfl⟩

theorem refused_of_addFrame {err : String} (h : ch.addFrame f l1InclusionBlock = .error err)
    (hid : f.id = ch.id) :
    f.isLast = true ∧ ch.closed = true ∨ f.frameNumber.toNat ∈ ch.inputs := by
  by_contra hrefused
  obtain ⟨hsingle, hfresh⟩ := not_or.mp hrefused
  unfold addFrame at h
  dsimp only at h
  rw [if_neg (not_not.mpr hid), if_neg hsingle, if_neg hfresh] at h
  cases h

end Channel

inductive ReadError where
  | eof
  | failed (err : String)
  deriving DecidableEq

def maxRLPBytesPerChannel : ℕ := 10000000

structure BatchReader where
  data : Bytes
  failure : Option String
  remaining : ℕ
  l1InclusionBlock : L1BlockRef
  deriving DecidableEq

namespace BatchReader

def new (zlib : Zlib.Codec) (data : Bytes) (l1InclusionBlock : L1BlockRef) :
    Except String BatchReader :=
  match zlib.inflate data with
  | .error err => .error err
  | .ok inflated =>
    .ok {
      data := inflated.data
      failure := inflated.failure
      remaining := maxRLPBytesPerChannel
      l1InclusionBlock }

def next (r : BatchReader) : Except ReadError (BatchWithL1InclusionBlock × BatchReader) :=
  if r.remaining = 0 then .error .eof
  else if r.data = [] then
    .error (match r.failure with
      | none => .eof
      | some err => .failed err)
  else match Rlp.splitString r.data with
    | none => .error (.failed "rlp: invalid input for derive.BatchData")
    | some (content, rest) =>
      if r.remaining < r.data.length - rest.length then
        .error (.failed "rlp: value size exceeds available input length")
      else match BatchData.decodeTyped content with
        | .error err => .error (.failed err)
        | .ok batch =>
          .ok ({ l1InclusionBlock := r.l1InclusionBlock, batch },
            { r with data := rest, remaining := r.remaining - (r.data.length - rest.length) })

inductive Reads : BatchReader → List BatchWithL1InclusionBlock → Prop
  | done {r : BatchReader} (h : r.next = .error .eof) : Reads r []
  | next {r rest : BatchReader} {batch : BatchWithL1InclusionBlock}
      {batches : List BatchWithL1InclusionBlock} (h : r.next = .ok (batch, rest))
      (hrest : Reads rest batches) : Reads r (batch :: batches)

variable {r : BatchReader}

theorem next_encodeRLP {batch : BatchData} {rest : Bytes} (hdata : r.data = batch.encodeRLP ++ rest)
    (hlength : batch.encodeRLP.length ≤ r.remaining) (hlimit : r.remaining < 2 ^ 64) :
    r.next = .ok ({ l1InclusionBlock := r.l1InclusionBlock, batch },
      { r with data := rest, remaining := r.remaining - batch.encodeRLP.length }) := by
  have hpos : 0 < batch.encodeRLP.length := Rlp.length_encodeString_pos _
  have htyped : batch.encodeTyped.length < 2 ^ 64 := by
    have hle := batch.length_le_encodeRLP
    omega
  have hne : r.data ≠ [] := by
    intro hnil
    rw [hdata] at hnil
    have hempty := (List.append_eq_nil_iff.mp hnil).1
    rw [hempty, List.length_nil] at hpos
    omega
  have hsplit : Rlp.splitString r.data = some (batch.encodeTyped, rest) := by
    rw [hdata]
    exact Rlp.splitString_encodeString htyped rest
  have hread : r.data.length - rest.length = batch.encodeRLP.length := by
    rw [hdata, List.length_append]
    omega
  unfold next
  rw [if_neg (by omega), if_neg hne, hsplit]
  simp only [hread]
  rw [if_neg (by omega), BatchData.decodeTyped_encodeTyped htyped]

theorem reads_encodeRLP {batches : List BatchData}
    (hdata : r.data = batches.flatMap BatchData.encodeRLP) (hfailure : r.failure = none)
    (hlength : r.data.length ≤ r.remaining) (hlimit : r.remaining < 2 ^ 64) :
    r.Reads (batches.map fun batch => { l1InclusionBlock := r.l1InclusionBlock, batch }) := by
  induction batches generalizing r with
  | nil =>
    apply Reads.done
    have hnil : r.data = [] := hdata
    simp [next, hnil, hfailure]
  | cons batch batches ih =>
    rw [List.flatMap_cons] at hdata
    have hsum : r.data.length = batch.encodeRLP.length +
        (batches.flatMap BatchData.encodeRLP).length := by rw [hdata, List.length_append]
    have hnext := next_encodeRLP hdata (by omega) hlimit
    refine Reads.next hnext (ih rfl hfailure ?_ ?_)
    · dsimp only
      omega
    · dsimp only
      omega

end BatchReader

end Derive
