import TokamakTitan.Derive.ChannelBank

/-! What a channel makes of any frames, in any order and with repetitions, and where that differs
from the specification. -/
namespace Derive.Channel
open List

def accepted (ch : Channel) : List (Frame × L1BlockRef) → List Frame
  | [] => []
  | added :: rest =>
    match ch.addFrame added.1 added.2 with
    | .ok next => added.1 :: next.accepted rest
    | .error _ => ch.accepted rest

/-- The rule by which frames are kept: the first frame with a number, and one last frame. -/
def keep (kept : List Frame) (f : Frame) : List Frame :=
  if (∃ g ∈ kept, g.frameNumber = f.frameNumber) ∨ f.isLast = true ∧ ∃ g ∈ kept, g.isLast = true
  then kept else kept ++ [f]

def Complete (kept : List Frame) : Prop :=
  ∃ f ∈ kept, f.isLast = true ∧ ∀ i ≤ f.frameNumber.toNat, ∃ g ∈ kept, g.frameNumber.toNat = i

/-- The channel holds exactly the frames that were kept. -/
structure Reassembles (ch : Channel) (offered kept : List Frame) : Prop where
  kept_eq : kept = offered.foldl keep []
  stored : ∀ i data, ch.inputs.lookup i = some data ↔
    ∃ f ∈ kept, f.frameNumber.toNat = i ∧ f.data = data
  final : ∀ f ∈ kept, f.isLast = true → ch.endFrameNumber = f.frameNumber
  ready : ch.isReady = true ↔ Complete kept
  reads : ∀ f ∈ kept, f.isLast = true → Complete kept →
    ∃ ordered : List Frame, ordered ⊆ kept ∧
      ordered.map (fun g => g.frameNumber.toNat) = List.range (f.frameNumber.toNat + 1) ∧
      ch.reader = .ok (ordered.flatMap Frame.data)
  size : ch.size = BitVec.ofNat 64 (kept.map ChannelBank.frameSize).sum

/-- The channel holds the frames of `kept`. -/
structure Holds (ch : Channel) (kept : List Frame) : Prop where
  closed : ch.closed = true ↔ ∃ f ∈ kept, f.isLast = true
  ended : ∀ f ∈ kept, f.isLast = true → ch.endFrameNumber = f.frameNumber
  inputs : ∀ i data, ch.inputs.lookup i = some data ↔
    ∃ f ∈ kept, f.frameNumber.toNat = i ∧ f.data = data

variable {ch next : Channel} {kept : List Frame} {f : Frame}

theorem holds_newChannel (id : ChannelID) (openBlock : L1BlockRef) :
    (newChannel id openBlock).Holds [] where
  closed := by simp [newChannel]
  ended := by simp
  inputs := by simp [newChannel]

section Holds

variable (h : ch.Holds kept)
include h

theorem Holds.mem_inputs (i : ℕ) : i ∈ ch.inputs ↔ ∃ f ∈ kept, f.frameNumber.toNat = i := by
  rw [← AList.lookup_isSome, Option.isSome_iff_exists]
  constructor
  · rintro ⟨data, hdata⟩
    obtain ⟨f, hf, hnumber, _⟩ := (h.inputs i data).mp hdata
    exact ⟨f, hf, hnumber⟩
  · rintro ⟨f, hf, hnumber⟩
    exact ⟨f.data, (h.inputs i f.data).mpr ⟨f, hf, hnumber, rfl⟩⟩

theorem Holds.added (hadded : ch.Added f next) : next.Holds (kept ++ [f]) := by
  refine ⟨?_, ?_, ?_⟩
  · simp only [hadded.closed, Bool.or_eq_true, mem_append, mem_singleton, h.closed]
    constructor
    · rintro (⟨g, hg, hlast⟩ | hlast)
      · exact ⟨g, Or.inl hg, hlast⟩
      · exact ⟨f, Or.inr rfl, hlast⟩
    · rintro ⟨g, hg | rfl, hlast⟩
      · exact Or.inl ⟨g, hg, hlast⟩
      · exact Or.inr hlast
  · intro g hg hglast
    rw [hadded.ended]
    rcases mem_append.mp hg with hg | hg
    · have hnot : ¬ f.isLast = true := by
        intro hlast
        exact hadded.single ⟨hlast, h.closed.mpr ⟨g, hg, hglast⟩⟩
      rw [if_neg hnot]
      exact h.ended g hg hglast
    · rw [mem_singleton.mp hg] at hglast ⊢
      rw [if_pos hglast]
  · intro i data
    rw [hadded.inputs]
    by_cases hi : i = f.frameNumber.toNat
    · subst hi
      rw [AList.lookup_insert]
      constructor
      · intro hdata
        exact ⟨f, by simp, rfl, Option.some.inj hdata⟩
      · rintro ⟨g, hg, hnumber, rfl⟩
        rcases mem_append.mp hg with hg | hg
        · exact absurd ((h.mem_inputs _).mpr ⟨g, hg, hnumber⟩) hadded.fresh
        · rw [mem_singleton.mp hg]
    · rw [AList.lookup_insert_ne hi, h.inputs]
      constructor
      · rintro ⟨g, hg, hnumber, hdata⟩
        exact ⟨g, mem_append_left _ hg, hnumber, hdata⟩
      · rintro ⟨g, hg, hnumber, hdata⟩
        rcases mem_append.mp hg with hg | hg
        · exact ⟨g, hg, hnumber, hdata⟩
        · rw [mem_singleton.mp hg] at hnumber
          exact absurd hnumber.symm hi

theorem Holds.isReady_iff_exists :
    ch.isReady = true ↔ ∃ f ∈ kept, f.isLast = true ∧
      (∀ i ≤ f.frameNumber.toNat, ∃ g ∈ kept, g.frameNumber.toNat = i) ∧
      ∀ g ∈ kept, g.frameNumber.toNat ≤ f.frameNumber.toNat := by
  have hcount {n : ℕ} (hall : ∀ i ≤ n, i ∈ ch.inputs) :
      ch.inputs.keys.length = n + 1 ↔ ∀ i ∈ ch.inputs, i ≤ n := by
    have hsub : (range (n + 1)).Subperm ch.inputs.keys :=
      nodup_range.subperm fun i hi => hall i (by rw [mem_range] at hi; omega)
    constructor
    · intro hlength i hi
      have hperm := hsub.perm_of_length_le (by rw [hlength, length_range])
      have hrange := mem_range.mp (hperm.mem_iff.mpr hi)
      omega
    · intro hle
      have hperm : ch.inputs.keys.Perm (range (n + 1)) := by
        apply (perm_ext_iff_of_nodup ch.inputs.keys_nodup nodup_range).mpr
        intro i
        rw [mem_range]
        exact ⟨fun hi => Nat.lt_succ_of_le (hle i hi), fun hi => hall i (by omega)⟩
      rw [hperm.length_eq, length_range]
  simp only [isReady, Bool.and_eq_true, decide_eq_true_eq, all_eq_true, mem_range,
    AList.lookup_isSome, Nat.lt_succ_iff]
  constructor
  · rintro ⟨⟨hclosed, hlength⟩, hall⟩
    obtain ⟨f, hf, hlast⟩ := h.closed.mp hclosed
    rw [h.ended f hf hlast] at hlength hall
    refine ⟨f, hf, hlast, fun i hi => (h.mem_inputs i).mp (hall i hi), fun g hg => ?_⟩
    exact (hcount hall).mp hlength _ ((h.mem_inputs _).mpr ⟨g, hg, rfl⟩)
  · rintro ⟨f, hf, hlast, hall, hmax⟩
    have hinputs : ∀ i ≤ f.frameNumber.toNat, i ∈ ch.inputs :=
      fun i hi => (h.mem_inputs i).mpr (hall i hi)
    rw [h.ended f hf hlast]
    refine ⟨⟨h.closed.mpr ⟨f, hf, hlast⟩, (hcount hinputs).mpr fun i hi => ?_⟩, hinputs⟩
    obtain ⟨g, hg, rfl⟩ := (h.mem_inputs i).mp hi
    exact hmax g hg

end Holds

theorem accepted_concat (ch : Channel) (offered : List (Frame × L1BlockRef))
    (added : Frame × L1BlockRef) :
    ch.accepted (offered ++ [added]) = ch.accepted offered ++
      match (offered.foldl Channel.ingest ch).addFrame added.1 added.2 with
      | .ok _ => [added.1]
      | .error _ => [] := by
  induction offered generalizing ch with
  | nil => simp only [nil_append, accepted, foldl_nil]
  | cons first offered ih =>
    rw [cons_append, accepted, accepted, foldl_cons, Channel.ingest]
    cases ch.addFrame first.1 first.2 with
    | ok =>
      dsimp only
      rw [ih, cons_append]
    | error => exact ih ch

theorem Holds.exists_number (h : ch.Holds kept) :
    (∃ g ∈ kept, g.frameNumber = f.frameNumber) ↔ f.frameNumber.toNat ∈ ch.inputs := by
  simp only [h.mem_inputs, BitVec.toNat_inj]

theorem Holds.keep_added (h : ch.Holds kept) (hadded : ch.Added f next) :
    keep kept f = kept ++ [f] := by
  rw [keep, if_neg]
  rw [h.exists_number, ← h.closed]
  rintro (hdup | hlast)
  · exact hadded.fresh hdup
  · exact hadded.single hlast

theorem Holds.reader_of_complete (h : ch.Holds kept) (hf : f ∈ kept) (hlast : f.isLast = true)
    (hall : ∀ i ≤ f.frameNumber.toNat, ∃ g ∈ kept, g.frameNumber.toNat = i) :
    ∃ ordered : List Frame, ordered ⊆ kept ∧
      ordered.map (fun g => g.frameNumber.toNat) = range (f.frameNumber.toNat + 1) ∧
      ch.reader = .ok (ordered.flatMap Frame.data) := by
  have : Inhabited Frame := ⟨f⟩
  choose! pick hmem hnumber using hall
  have hle : ∀ i ∈ range (f.frameNumber.toNat + 1), i ≤ f.frameNumber.toNat := by
    intro i hi
    rw [mem_range] at hi
    omega
  have hread : (range (ch.endFrameNumber.toNat + 1)).mapM ch.input =
      .ok ((range (f.frameNumber.toNat + 1)).map fun i => (pick i).data) := by
    rw [h.ended f hf hlast, Checked.mapM_eq_ok, forall₂_map_right_iff, forall₂_same]
    intro i hi
    rw [Channel.input, (h.inputs i (pick i).data).mpr
      ⟨pick i, hmem i (hle i hi), hnumber i (hle i hi), rfl⟩]
  refine ⟨(range (f.frameNumber.toNat + 1)).map pick, ?_, ?_, ?_⟩
  · intro g hg
    obtain ⟨i, hi, rfl⟩ := mem_map.mp hg
    exact hmem i (hle i hi)
  · rw [map_map]
    exact (map_congr_left fun i hi => hnumber i (hle i hi)).trans (map_id _)
  · rw [Channel.reader, hread, flatMap_def, map_map]
    rfl

section Offers

variable {id : ChannelID} (openBlock : L1BlockRef) {offered : List (Frame × L1BlockRef)}

theorem holds_accepted (hid : ∀ added ∈ offered, added.1.id = id) :
    (offered.foldl Channel.ingest (newChannel id openBlock)).id = id ∧
    (offered.foldl Channel.ingest (newChannel id openBlock)).Holds
      ((newChannel id openBlock).accepted offered) ∧
    (newChannel id openBlock).accepted offered = (offered.map Prod.fst).foldl keep [] ∧
    (offered.foldl Channel.ingest (newChannel id openBlock)).size =
      BitVec.ofNat 64 (((newChannel id openBlock).accepted offered).map
        ChannelBank.frameSize).sum := by
  induction offered using reverseRecOn with
  | nil => exact ⟨rfl, holds_newChannel id openBlock, rfl, rfl⟩
  | append_singleton offered added ih =>
    obtain ⟨hch, hholds, hkept, hsize⟩ := ih fun other hother => hid other (by simp [hother])
    rw [accepted_concat, map_append, foldl_append, foldl_append, ← hkept]
    simp only [foldl_cons, foldl_nil, map_cons, map_nil]
    rw [Channel.ingest]
    cases hadd : (offered.foldl Channel.ingest (newChannel id openBlock)).addFrame
        added.1 added.2 with
    | ok next =>
      have hadded := added_of_addFrame hadd
      refine ⟨hadded.id.trans hch, hholds.added hadded, (hholds.keep_added hadded).symm, ?_⟩
      rw [hadded.size, hsize, map_append, sum_append, map_singleton,
        sum_singleton, BitVec.ofNat_add, ChannelBank.frameSize, BitVec.ofNat_add]
      rfl
    | error err =>
      rw [append_nil]
      refine ⟨hch, hholds, ?_, hsize⟩
      rw [keep, if_pos]
      rw [hholds.exists_number, ← hholds.closed]
      exact (refused_of_addFrame hadd (by rw [hid added (by simp), hch])).symm

/-- A channel follows the specification exactly if no frame above the last one is among its frames
when all frames up to the last one are: such a frame keeps it from being ready. -/
theorem channel_reassembles_iff (hid : ∀ added ∈ offered, added.1.id = id) :
    Reassembles (offered.foldl Channel.ingest (newChannel id openBlock)) (offered.map Prod.fst)
        ((newChannel id openBlock).accepted offered) ↔
      (Complete ((newChannel id openBlock).accepted offered) →
        ∀ f ∈ (newChannel id openBlock).accepted offered, f.isLast = true →
          ∀ g ∈ (newChannel id openBlock).accepted offered,
            g.frameNumber.toNat ≤ f.frameNumber.toNat) := by
  obtain ⟨-, hholds, hkept, hsize⟩ := holds_accepted openBlock hid
  have heq {f g : Frame} (hf : f ∈ (newChannel id openBlock).accepted offered)
      (hg : g ∈ (newChannel id openBlock).accepted offered) (hflast : f.isLast = true)
      (hglast : g.isLast = true) : f.frameNumber = g.frameNumber :=
    (hholds.ended f hf hflast).symm.trans (hholds.ended g hg hglast)
  constructor
  · intro h hcomplete f hf hlast
    obtain ⟨last, hmem, hlast', -, hmax⟩ := hholds.isReady_iff_exists.mp (h.ready.mpr hcomplete)
    rw [heq hf hmem hlast hlast']
    exact hmax
  · intro hmax
    refine ⟨hkept, hholds.inputs, hholds.ended, ?_, ?_, hsize⟩
    · rw [hholds.isReady_iff_exists]
      constructor
      · rintro ⟨f, hf, hlast, hall, -⟩
        exact ⟨f, hf, hlast, hall⟩
      · intro hcomplete
        obtain ⟨f, hf, hlast, hall⟩ := hcomplete
        exact ⟨f, hf, hlast, hall, hmax ⟨f, hf, hlast, hall⟩ f hf hlast⟩
    · rintro f hf hlast ⟨last, hmem, hlast', hall⟩
      rw [← heq hf hmem hlast hlast'] at hall
      exact hholds.reader_of_complete hf hlast hall

end Offers

def frame7 (number : BitVec 16) (data : Bytes) (isLast : Bool) : Frame × L1BlockRef :=
  (⟨7, number, data, isLast⟩, L1BlockRef.zero)

def offered7 : List (Frame × L1BlockRef) :=
  [frame7 1 [0x0b] true, frame7 0 [0x0a] false, frame7 0 [0xff] false, frame7 2 [] true]

theorem channel_reassembles_sample :
    (∀ added ∈ offered7, added.1.id = 7) ∧
    (newChannel 7 L1BlockRef.zero).accepted offered7 =
      [(frame7 1 [0x0b] true).1, (frame7 0 [0x0a] false).1] ∧
    (offered7.foldl Channel.ingest (newChannel 7 L1BlockRef.zero)).reader =
      .ok [0x0a, 0x0b] ∧
    Reassembles (offered7.foldl Channel.ingest (newChannel 7 L1BlockRef.zero))
      (offered7.map Prod.fst) ((newChannel 7 L1BlockRef.zero).accepted offered7) := by
  refine ⟨by decide, by decide, by decide, ?_⟩
  exact (channel_reassembles_iff L1BlockRef.zero (by decide)).mpr fun _ => by decide

/-- The channel of one last frame is ready, and a later frame above it makes it wait forever. -/
theorem channel_not_reassembled :
    ∃ (id : ChannelID) (openBlock : L1BlockRef) (front : List (Frame × L1BlockRef))
      (added : Frame × L1BlockRef),
      (front.foldl Channel.ingest (newChannel id openBlock)).isReady = true ∧
      Complete ((newChannel id openBlock).accepted (front ++ [added])) ∧
      ((front ++ [added]).foldl Channel.ingest (newChannel id openBlock)).isReady = false := by
  refine ⟨7, L1BlockRef.zero, [frame7 0 [0x0a] true], frame7 1 [0x0b] false, ?_⟩
  refine ⟨by decide, ⟨(frame7 0 [0x0a] true).1, by decide, rfl, fun i hi => ?_⟩, by decide⟩
  obtain rfl : i = 0 := Nat.le_zero.mp hi
  exact ⟨(frame7 0 [0x0a] true).1, by decide, rfl⟩

end Derive.Channel
