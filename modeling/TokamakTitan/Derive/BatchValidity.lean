import TokamakTitan.Derive.BatchQueue

/-! The validity of the batches that the batch queue returns, along every run: parent, timestamp, L1
origin and transactions. -/
namespace Derive
open List

namespace L1Chain

def Has (l1 : L1Chain) (ref : L1BlockRef) : Prop :=
  ∃ b, l1.block ref.hash = some b ∧ b.info.ref = ref

theorem Has.unique {l1 : L1Chain} {a b : L1BlockRef} (ha : l1.Has a) (hb : l1.Has b)
    (hhash : a.hash = b.hash) : a = b := by
  obtain ⟨x, hx, rfl⟩ := ha
  obtain ⟨y, hy, rfl⟩ := hb
  rw [hhash, hy] at hx
  cases hx
  rfl

theorem Has.number_succ {l1 : L1Chain} {parent child : L1BlockRef} (hparent : l1.Has parent)
    (hchild : l1.Has child) (hlink : child.parentHash = parent.hash) :
    child.number.toNat = parent.number.toNat + 1 := by
  obtain ⟨x, hx, rfl⟩ := hparent
  obtain ⟨y, hy, rfl⟩ := hchild
  have hup : l1.block y.info.parentHash = some x := (congrArg l1.block hlink).trans hx
  exact l1.number_succ hy hup

end L1Chain

structure Segment (l1 : L1Chain) (blocks : List L1BlockRef) (origin : L1BlockRef) : Prop where
  known : ∀ b ∈ blocks, l1.Has b
  linked : blocks.IsChain fun parent child => child.parentHash = parent.hash
  last : ∀ b ∈ blocks.getLast?, b = origin

namespace Segment

variable {l1 : L1Chain} {blocks rest : List L1BlockRef} {origin next epoch : L1BlockRef}

theorem nil (l1 : L1Chain) (origin : L1BlockRef) : Segment l1 [] origin :=
  ⟨by simp, .nil, by simp⟩

theorem singleton (h : l1.Has origin) : Segment l1 [origin] origin :=
  ⟨by simpa using h, .singleton _, by simp⟩

theorem tail (h : Segment l1 (epoch :: next :: rest) origin) :
    Segment l1 (next :: rest) origin := by
  refine ⟨fun b hb => h.known b (mem_cons_of_mem _ hb), h.linked.tail, ?_⟩
  intro b hb
  apply h.last b
  rw [getLast?_cons_cons]
  exact hb

theorem snoc (h : Segment l1 blocks origin) (hnext : l1.Has next)
    (hlink : next.parentHash = origin.hash) : Segment l1 (blocks ++ [next]) next := by
  refine ⟨?_, h.linked.append (.singleton _) ?_, by simp⟩
  · intro b hb
    rcases mem_append.mp hb with hold | hnew
    · exact h.known b hold
    · rw [mem_singleton] at hnew
      exact hnew ▸ hnext
  · intro x hx y hy
    rw [h.last x hx]
    cases hy
    exact hlink

theorem advance {bq : BatchQueue} (h : Segment l1 bq.l1Blocks bq.origin) (hnext : l1.Has next)
    (hstep : next = bq.origin ∨ next.parentHash = bq.origin.hash) (behind : Bool) :
    Segment l1 (bq.advance next behind).l1Blocks next := by
  unfold BatchQueue.advance
  split
  next heq => exact heq ▸ h
  next hne =>
    rcases hstep with heq | hlink
    · exact absurd heq.symm hne
    · cases behind with
      | true => exact nil l1 next
      | false => exact h.snoc hnext hlink

end Segment

theorem batchOrigin_eq_ok {epoch origin : L1BlockRef} {rest : List L1BlockRef} {batch : BatchData}
    (h : batchOrigin epoch rest batch = .ok origin) :
    (batch.epochNum = epoch.number ∧ origin = epoch) ∨
      (batch.epochNum = epoch.number + 1 ∧ ∃ more, rest = origin :: more) := by
  unfold batchOrigin at h
  split at h
  next => cases h
  next =>
    split at h
    next hsame =>
      cases h
      exact .inl ⟨hsame, rfl⟩
    next =>
      split at h
      next hnext =>
        split at h
        next => cases h
        next next more =>
          cases h
          exact .inr ⟨hnext, more, rfl⟩
      next => cases h

variable {result : Except Error BatchData} {queue : BatchQueue}

section Effects

variable {cfg : Config} {l1 : L1Chain} {bq : BatchQueue} {head : L2BlockRef} {batch : BatchData}
  {origin : L1BlockRef} {blocks : List L1BlockRef}

/-- The L1 block of a batch: the origin of the safe head, or the L1 block after it. -/
def NextOrigin (l1 : L1Chain) (head : L2BlockRef) (origin : L1BlockRef) : Prop :=
  l1.Has origin ∧ (origin.id = head.l1Origin ∨
    origin.parentHash = head.l1Origin.hash ∧
      origin.number.toNat = head.l1Origin.number.toNat + 1)

variable {rest : List L1BlockRef} {epoch : L1BlockRef}

theorem Segment.nextOrigin_head (h : Segment l1 (epoch :: rest) origin)
    (hepoch : head.l1Origin = epoch.id) :
    NextOrigin l1 head epoch := ⟨h.known epoch mem_cons_self, .inl hepoch.symm⟩

theorem Segment.nextOrigin_next {epoch next : L1BlockRef}
    (h : Segment l1 (epoch :: next :: rest) origin) (hepoch : head.l1Origin = epoch.id) :
    NextOrigin l1 head next := by
  have hhas : l1.Has epoch := h.known epoch (by simp)
  have hnext : l1.Has next := h.known next (by simp)
  have hlink : next.parentHash = epoch.hash := (isChain_cons_cons.mp h.linked).1
  refine ⟨hnext, .inr ?_⟩
  rw [hepoch]
  exact ⟨hlink, hhas.number_succ hnext hlink⟩

structure Fitting (cfg : Config) (l1 : L1Chain) (head : L2BlockRef) (batch : BatchData)
    (origin : L1BlockRef) : Prop where
  parentHash : batch.parentHash = head.hash
  timestamp : batch.timestamp = head.time + cfg.blockTime
  next : NextOrigin l1 head origin
  epoch : batch.epoch = origin.id
  transactions : batch.transactions ≠ [] → batch.timestamp ≤ origin.time + cfg.maxSequencerDrift ∧
    SequencerTxs batch.transactions

theorem Segment.accepted {epoch l1InclusionBlock : L1BlockRef}
    (h : Segment l1 (epoch :: rest) origin) (hepoch : head.l1Origin = epoch.id)
    (haccept : checkBatch cfg (epoch :: rest) head l1InclusionBlock batch = .accept) :
    ∃ used more,
      (if batch.epochNum = epoch.number + 1 then rest else epoch :: rest) = used :: more ∧
      Segment l1 (used :: more) origin ∧ Fitting cfg l1 head batch used := by
  obtain ⟨first, tail, used, hcons, -, htime, hparent, -, horigin, hhash, hdrift, htxs⟩ :=
    checkBatch_accept haccept
  cases hcons
  have hfits : NextOrigin l1 head used → batch.epoch = used.id →
      Fitting cfg l1 head batch used := fun hnext hid =>
    ⟨hparent, htime, hnext, hid, fun _ => ⟨hdrift, htxs⟩⟩
  rcases batchOrigin_eq_ok horigin with ⟨hnum, rfl⟩ | ⟨hnum, more, rfl⟩
  · have hne : ¬ batch.epochNum = used.number + 1 := by
      rw [hnum]
      intro heq
      bv_omega
    rw [if_neg hne]
    refine ⟨used, rest, rfl, h, hfits (h.nextOrigin_head hepoch) ?_⟩
    rw [BatchData.epoch, hnum, hhash, L1BlockRef.id]
  · rw [if_pos hnum]
    refine ⟨used, more, rfl, h.tail, hfits (h.nextOrigin_next hepoch) ?_⟩
    have hnumber : used.number = epoch.number + 1 := by
      have hsucc := (h.known epoch (by simp)).number_succ (h.known used (by simp))
        (isChain_cons_cons.mp h.linked).1
      bv_omega
    rw [BatchData.epoch, hnum, hhash, L1BlockRef.id, hnumber]

theorem fitting_emptyBatch (hnext : NextOrigin l1 head epoch) :
    Fitting cfg l1 head (BatchQueue.emptyBatch head epoch (head.time + cfg.blockTime)) epoch :=
  ⟨rfl, rfl, hnext, rfl, fun hne => absurd rfl hne⟩

theorem Segment.of_deriveEffect (h : Segment l1 bq.l1Blocks origin)
    (heffect : bq.DeriveEffect cfg head blocks result) : Segment l1 blocks origin := by
  cases heffect with
  | noOrigin hblocks => exact hblocks ▸ h
  | mismatch hblocks => exact hblocks ▸ h
  | future hblocks => exact hblocks ▸ h
  | waiting hblocks => exact hblocks ▸ h
  | submitted hblocks hepoch _ haccept =>
    rw [hblocks] at h
    obtain ⟨used, more, hleft, hsegment, -⟩ := h.accepted hepoch haccept
    rw [hleft]
    exact hsegment
  | stays hblocks => exact hblocks ▸ h
  | opens hblocks =>
    rw [hblocks] at h
    exact h.tail

def HeadValid (l1 : L1Chain) (head : L2BlockRef) : Prop :=
  ∃ origin, l1.Has origin ∧ origin.id = head.l1Origin ∧ origin.time ≤ head.time

theorem HeadValid.time_le (h : HeadValid l1 head) (hepoch : l1.Has epoch)
    (hid : head.l1Origin = epoch.id) : epoch.time ≤ head.time := by
  obtain ⟨known, hhas, hknown, htime⟩ := h
  have heq : known = epoch := hhas.unique hepoch (congrArg BlockID.hash (hknown.trans hid))
  exact heq ▸ htime

theorem Segment.fitting (h : Segment l1 queue.l1Blocks origin)
    (heffect : queue.DeriveEffect cfg head blocks (.ok batch)) :
    ∃ used, Fitting cfg l1 head batch used ∧
      ((∃ t, ∃ x ∈ queue.batches t, x.batch = batch) ∧ batch.epoch ≠ head.l1Origin ∨
      (HeadValid l1 head → head.time ≤ head.time + cfg.blockTime →
        used.time ≤ batch.timestamp)) := by
  cases heffect with
  | @submitted epoch rest next hblocks hepoch hstored haccept =>
    rw [hblocks] at h
    obtain ⟨used, more, -, -, hfits⟩ := h.accepted hepoch haccept
    refine ⟨used, hfits, ?_⟩
    by_cases hstay : next.batch.epoch = head.l1Origin
    · refine .inr fun hvalid hfit => ?_
      rw [hfits.timestamp]
      exact BitVec.le_trans (hvalid.time_le hfits.next.1 (hstay.symm.trans hfits.epoch)) hfit
    · exact .inl ⟨⟨_, _, hstored, rfl⟩, hstay⟩
  | @stays epoch nextEpoch rest hblocks hepoch =>
    rw [hblocks] at h
    refine ⟨epoch, fitting_emptyBatch (h.nextOrigin_head hepoch), .inr fun hvalid hfit => ?_⟩
    exact BitVec.le_trans (hvalid.time_le (h.known epoch (by simp)) hepoch) hfit
  | opens hblocks hepoch htime =>
    rw [hblocks] at h
    exact ⟨_, fitting_emptyBatch (h.nextOrigin_next hepoch), .inr fun _ _ => htime⟩

end Effects

structure BatchRun where
  queue : BatchQueue
  safeHead : L2BlockRef
  offered : List BatchData
  returned : List (L2BlockRef × BatchData)

def BatchRun.start (base : L1BlockRef) (safeHead : L2BlockRef) : BatchRun where
  queue := BatchQueue.reset base
  safeHead
  offered := []
  returned := []

def ReaderAnswers.batches (prev : ReaderAnswers) : List BatchData :=
  match prev.nextBatch with
  | .ok batch => [batch]
  | .error _ => []

/-- The channel reader is at the origin of the queue, or at the next L1 block. -/
def ReaderAnswers.Follows (l1 : L1Chain) (bq : BatchQueue) (prev : ReaderAnswers) : Prop :=
  l1.Has prev.origin ∧ (prev.origin = bq.origin ∨ prev.origin.parentHash = bq.origin.hash)

inductive BatchRun.Call (cfg : Config) (l1 : L1Chain) (s : BatchRun) : BatchRun → Prop
  | waits (prev : ReaderAnswers) {queue : BatchQueue} {err : Error}
      (hprev : prev.Follows l1 s.queue)
      (hcall : s.queue.nextBatch cfg prev s.safeHead = (queue, .error err)) :
      Call cfg l1 s { s with queue, offered := s.offered ++ prev.batches }
  | returns (prev : ReaderAnswers) {queue : BatchQueue} {batch : BatchData} {head : L2BlockRef}
      (hprev : prev.Follows l1 s.queue)
      (hcall : s.queue.nextBatch cfg prev s.safeHead = (queue, .ok batch))
      (htime : head.time = batch.timestamp) (horigin : head.l1Origin = batch.epoch) :
      Call cfg l1 s
        { queue
          safeHead := head
          offered := s.offered ++ prev.batches
          returned := s.returned ++ [(s.safeHead, batch)] }

inductive BatchRun.Step (cfg : Config) (l1 : L1Chain) (s : BatchRun) : BatchRun → Prop
  | call {t : BatchRun} (hcall : s.Call cfg l1 t) : Step cfg l1 s t
  | reset (base : L1BlockRef) {head : L2BlockRef} (hbase : l1.Has base)
      (hhead : HeadValid l1 head) :
      Step cfg l1 s { s with queue := BatchQueue.reset base, safeHead := head }

section Runs

variable {cfg : Config} {l1 : L1Chain} {s t : BatchRun} {base : L1BlockRef} {first : L2BlockRef}

/-- The batch comes one block time after the head, in an epoch that may come next. -/
structure ValidBatch (cfg : Config) (l1 : L1Chain) (head : L2BlockRef) (batch : BatchData) :
    Prop where
  parentHash : batch.parentHash = head.hash
  timestamp : batch.timestamp.toNat = head.time.toNat + cfg.blockTime.toNat
  origin : ∃ origin, NextOrigin l1 head origin ∧ batch.epoch = origin.id ∧
    origin.time ≤ batch.timestamp ∧ (batch.transactions ≠ [] →
      batch.timestamp.toNat ≤ origin.time.toNat + cfg.maxSequencerDrift.toNat ∧
        SequencerTxs batch.transactions)

def Timely (l1 : L1Chain) (batch : BatchData) : Prop :=
  ∀ origin, l1.Has origin → batch.epoch = origin.id → origin.time ≤ batch.timestamp

variable {head : L2BlockRef} {batch : BatchData}

theorem Fitting.valid {used : L1BlockRef} (h : Fitting cfg l1 head batch used)
    (hfit : head.time.toNat + cfg.blockTime.toNat < 2 ^ 64) (htime : used.time ≤ batch.timestamp) :
    ValidBatch cfg l1 head batch := by
  refine ⟨h.parentHash, ?_, used, h.next, h.epoch, htime, ?_⟩
  · rw [h.timestamp, BitVec.toNat_add, Nat.mod_eq_of_lt hfit]
  · intro htxs
    obtain ⟨hdrift, hclean⟩ := h.transactions htxs
    have hle := BitVec.le_def.mp hdrift
    rw [BitVec.toNat_add] at hle
    exact ⟨hle.trans (Nat.mod_le _ _), hclean⟩

theorem ValidBatch.timely (h : ValidBatch cfg l1 head batch) : Timely l1 batch := by
  intro origin hhas hepoch
  obtain ⟨used, hnext, hused, htime, -⟩ := h.origin
  have heq : used = origin :=
    hnext.1.unique hhas (congrArg BlockID.hash (hused.symm.trans hepoch))
  exact heq ▸ htime

/-- The kept L1 blocks are a stretch of the chain, and stored batches were offered. -/
structure BatchRun.Inv (l1 : L1Chain) (s : BatchRun) : Prop where
  segment : Segment l1 s.queue.l1Blocks s.queue.origin
  stores : s.queue.Stores fun t batch => batch ∈ s.offered ∧ batch.timestamp = t

variable {prev : ReaderAnswers}

theorem BatchQueue.NextEffect.segment {bq : BatchQueue} {blocks : List L1BlockRef}
    (heffect : bq.NextEffect cfg prev head blocks result) (h : Segment l1 bq.l1Blocks bq.origin)
    (hprev : prev.Follows l1 bq) : Segment l1 blocks prev.origin := by
  have hadvance := h.advance hprev.1 hprev.2
  cases heffect with
  | behind => exact hadvance true
  | failed => exact hadvance false
  | unprepared => exact Segment.nil l1 prev.origin
  | derived _ hblocks _ heffect => exact Segment.of_deriveEffect (hblocks ▸ hadvance false) heffect
  | more _ hblocks heffect => exact Segment.of_deriveEffect (hblocks ▸ hadvance false) heffect

theorem ReaderAnswers.mem_batches (h : prev.nextBatch = .ok batch) : batch ∈ prev.batches := by
  simp [ReaderAnswers.batches, h]

namespace BatchRun

theorem Inv.stores_more (h : s.Inv l1) (prev : ReaderAnswers) :
    s.queue.Stores fun t batch => batch ∈ s.offered ++ prev.batches ∧ batch.timestamp = t :=
  fun time x hx => (h.stores time x hx).imp_left (mem_append_left _)

theorem Inv.nextBatch (h : s.Inv l1) (hprev : prev.Follows l1 s.queue)
    (hcall : s.queue.nextBatch cfg prev s.safeHead = (queue, result)) :
    Segment l1 queue.l1Blocks queue.origin ∧
      queue.Stores fun t batch => batch ∈ s.offered ++ prev.batches ∧ batch.timestamp = t := by
  obtain ⟨heffect, horigin⟩ := BatchQueue.nextBatch_eq hcall
  have hstores := (BatchQueue.nextBatch_frame cfg prev s.queue s.safeHead).2 _
    (fun batch hbatch => ⟨mem_append_right _ (prev.mem_batches hbatch), rfl⟩) (h.stores_more prev)
  rw [hcall] at hstores
  refine ⟨?_, hstores⟩
  rw [horigin]
  exact heffect.segment h.segment hprev

theorem Inv.returned {batch : BatchData} (h : s.Inv l1) (hprev : prev.Follows l1 s.queue)
    (hcall : s.queue.nextBatch cfg prev s.safeHead = (queue, .ok batch)) :
    ∃ used, Fitting cfg l1 s.safeHead batch used ∧
      (batch ∈ s.offered ++ prev.batches ∧ batch.epoch ≠ s.safeHead.l1Origin ∨
      (HeadValid l1 s.safeHead → s.safeHead.time ≤ s.safeHead.time + cfg.blockTime →
        used.time ≤ batch.timestamp)) := by
  obtain ⟨-, derived, hblocks, hstores, heffect⟩ := (BatchQueue.nextBatch_eq hcall).1.of_ok
  have hsegment := h.segment.advance hprev.1 hprev.2 false
  rw [← hblocks] at hsegment
  obtain ⟨used, hfits, hsource⟩ := hsegment.fitting heffect
  refine ⟨used, hfits, hsource.imp_left ?_⟩
  rintro ⟨⟨time, x, hx, rfl⟩, hopens⟩
  have hfrom := hstores _ (fun b hb => ⟨mem_append_right _ (prev.mem_batches hb), rfl⟩)
    (h.stores_more prev)
  exact ⟨(hfrom time x hx).1, hopens⟩

theorem Inv.call (h : s.Inv l1) (hcall : s.Call cfg l1 t) : t.Inv l1 := by
  cases hcall with
  | waits prev hprev hcall =>
    obtain ⟨hsegment, hstores⟩ := h.nextBatch hprev hcall
    exact ⟨hsegment, hstores⟩
  | returns prev hprev hcall =>
    obtain ⟨hsegment, hstores⟩ := h.nextBatch hprev hcall
    exact ⟨hsegment, hstores⟩

theorem inv_reset {offered : List BatchData} {returned : List (L2BlockRef × BatchData)}
    (hbase : l1.Has base) :
    BatchRun.Inv l1 { queue := BatchQueue.reset base, safeHead := head, offered, returned } := by
  refine ⟨Segment.singleton hbase, ?_⟩
  intro time x hx
  cases hx

theorem Inv.step (h : s.Inv l1) (hstep : s.Step cfg l1 t) : t.Inv l1 := by
  cases hstep with
  | call hcall => exact h.call hcall
  | reset base hbase => exact inv_reset hbase

/-- No batch that a batcher submitted opens an epoch before the time of its L1 block. -/
def InTime (l1 : L1Chain) (s : BatchRun) : Prop :=
  ∀ entry ∈ s.returned, entry.2 ∈ s.offered → entry.2.epoch ≠ entry.1.l1Origin → Timely l1 entry.2

def NoWrap (cfg : Config) (s : BatchRun) : Prop :=
  ∀ entry ∈ s.returned, entry.1.time.toNat + cfg.blockTime.toNat < 2 ^ 64

def AllValid (cfg : Config) (l1 : L1Chain) (s : BatchRun) : Prop :=
  (∀ entry ∈ s.returned, ValidBatch cfg l1 entry.1 entry.2) ∧ HeadValid l1 s.safeHead

theorem InTime.mono (h : t.InTime l1) (hreturned : s.returned ⊆ t.returned)
    (hoffered : s.offered ⊆ t.offered) : s.InTime l1 :=
  fun entry hentry hoffer => h entry (hreturned hentry) (hoffered hoffer)

theorem AllValid.call (hinv : s.Inv l1) (hcall : s.Call cfg l1 t) (htime : t.InTime l1)
    (hwrap : t.NoWrap cfg) (h : s.AllValid cfg l1) : t.AllValid cfg l1 := by
  cases hcall with
  | waits => exact h
  | @returns prev queue batch head hprev hcall hhead horigin =>
    obtain ⟨used, hfits, hsource⟩ := hinv.returned hprev hcall
    have hnew : (s.safeHead, batch) ∈ s.returned ++ [(s.safeHead, batch)] := by simp
    have hfit := hwrap _ hnew
    have hused : used.time ≤ batch.timestamp := by
      rcases hsource with ⟨hoffered, hopens⟩ | hmade
      · exact htime _ hnew hoffered hopens used hfits.next.1 hfits.epoch
      · refine hmade h.2 ?_
        rw [BitVec.le_def, BitVec.toNat_add, Nat.mod_eq_of_lt hfit]
        exact Nat.le_add_right _ _
    refine ⟨?_, used, hfits.next.1, ?_, ?_⟩
    · intro entry hentry
      rcases mem_append.mp hentry with hold | hlast
      · exact h.1 entry hold
      · rw [mem_singleton] at hlast
        subst hlast
        exact hfits.valid hfit hused
    · rw [horigin, hfits.epoch]
    · rw [hhead]
      exact hused

theorem AllValid.step (hinv : s.Inv l1) (hstep : s.Step cfg l1 t) (htime : t.InTime l1)
    (hwrap : t.NoWrap cfg) (h : s.AllValid cfg l1) : t.AllValid cfg l1 := by
  cases hstep with
  | call hcall => exact h.call hinv hcall htime hwrap
  | reset base hbase hhead => exact ⟨h.1, hhead⟩

theorem Step.mono (hstep : s.Step cfg l1 t) : s.returned ⊆ t.returned ∧ s.offered ⊆ t.offered := by
  cases hstep with
  | call hcall =>
    cases hcall with
    | waits => exact ⟨Subset.refl _, subset_append_left _ _⟩
    | returns => exact ⟨subset_append_left _ _, subset_append_left _ _⟩
  | reset => exact ⟨Subset.refl _, Subset.refl _⟩

/-- From a valid safe head, the returned batches and the safe head are valid exactly if no submitted
batch opens an epoch before the time of its L1 block. -/
theorem returned_batches_valid_iff (hbase : l1.Has base) (hfirst : HeadValid l1 first)
    (hrun : Relation.ReflTransGen (Step cfg l1) (start base first) s) (hwrap : s.NoWrap cfg) :
    s.AllValid cfg l1 ↔ s.InTime l1 := by
  constructor
  · intro h entry hentry _ _
    exact (h.1 entry hentry).timely
  · intro htime
    have hinv : s.Inv l1 ∧ s.AllValid cfg l1 := by
      induction hrun with
      | refl => exact ⟨inv_reset hbase, by simp [start], hfirst⟩
      | tail _ hstep ih =>
        obtain ⟨hreturned, hoffered⟩ := hstep.mono
        obtain ⟨hinv, hvalid⟩ := ih (fun entry hentry => hwrap entry (hreturned hentry))
          (htime.mono hreturned hoffered)
        exact ⟨hinv.step hstep, hvalid.step hinv hstep htime hwrap⟩
    exact hinv.2

end BatchRun

end Runs

def pairL1 : L1Chain :=
  .ofBlocks
    [⟨⟨0xa1, 0xa0, 100, 1000, 1, 7⟩, []⟩, ⟨⟨0xb1, 0xa1, 101, 1012, 2, 8⟩, []⟩] (by decide)

def pairRefs : L1BlockRef × L1BlockRef :=
  (⟨0xa1, 100, 0xa0, 1000⟩, ⟨0xb1, 101, 0xa1, 1012⟩)

variable (time : Uint64)

def pairHead : L2BlockRef := ⟨0xc1, 50, 0xbf, time, ⟨0xa1, 100⟩, 4⟩

def pairBatch : BatchData where
  parentHash := 0xc1
  epochNum := 101
  epochHash := 0xb1
  timestamp := time + 2
  transactions := []

def pairReader : ReaderAnswers where
  origin := pairRefs.2
  nextBatch := .ok (pairBatch time)

def pairRun : BatchRun where
  queue :=
    ((BatchQueue.reset pairRefs.1).nextBatch devnetConfig (pairReader time) (pairHead time)).1
  safeHead :=
    { hash := 0xc2
      number := 51
      parentHash := 0xc1
      time := time + 2
      l1Origin := ⟨0xb1, 101⟩
      sequenceNumber := 0 }
  offered := [pairBatch time]
  returned := [(pairHead time, pairBatch time)]

theorem has_pairRefs : pairL1.Has pairRefs.1 ∧ pairL1.Has pairRefs.2 :=
  ⟨⟨_, rfl, rfl⟩, ⟨_, rfl, rfl⟩⟩

theorem headValid_pairHead {time : Uint64} (h : 1000 ≤ time) : HeadValid pairL1 (pairHead time) :=
  ⟨pairRefs.1, has_pairRefs.1, rfl, h⟩

theorem run_pairRun {time : Uint64}
    (hcall : ((BatchQueue.reset pairRefs.1).nextBatch devnetConfig (pairReader time)
      (pairHead time)).2 = .ok (pairBatch time)) :
    Relation.ReflTransGen (BatchRun.Step devnetConfig pairL1)
      (BatchRun.start pairRefs.1 (pairHead time)) (pairRun time) :=
  .single (.call (.returns (pairReader time) ⟨has_pairRefs.2, .inr rfl⟩ (Prod.ext rfl hcall) rfl
    rfl))

theorem returned_batches_valid_on_time :
    (pairRun 1010).NoWrap devnetConfig ∧ (pairRun 1010).AllValid devnetConfig pairL1 := by
  have hwrap : (pairRun 1010).NoWrap devnetConfig := by
    intro entry hentry
    rw [List.mem_singleton.mp hentry]
    decide
  refine ⟨hwrap, (BatchRun.returned_batches_valid_iff has_pairRefs.1
    (headValid_pairHead (by decide)) (run_pairRun (by decide +kernel)) hwrap).mpr ?_⟩
  intro entry hentry _ _ origin horigin hepoch
  rw [List.mem_singleton.mp hentry] at hepoch ⊢
  have heq : pairRefs.2 = origin :=
    has_pairRefs.2.unique horigin (congrArg BlockID.hash hepoch)
  rw [← heq]
  decide

/-- A batch that opens the next epoch six seconds before its L1 block is accepted, and the safe head
is older than its L1 origin. -/
theorem returned_batch_before_its_origin :
    ∃ s, Relation.ReflTransGen (BatchRun.Step devnetConfig pairL1)
        (BatchRun.start pairRefs.1 (pairHead 1004)) s ∧
      HeadValid pairL1 (pairHead 1004) ∧ s.NoWrap devnetConfig ∧
      (∃ entry ∈ s.returned, ¬ ValidBatch devnetConfig pairL1 entry.1 entry.2) ∧
      ¬ HeadValid pairL1 s.safeHead := by
  refine ⟨pairRun 1004, run_pairRun (by decide +kernel), headValid_pairHead (by decide), ?_, ?_, ?_⟩
  · intro entry hentry
    rw [List.mem_singleton.mp hentry]
    decide
  · refine ⟨(pairHead 1004, pairBatch 1004), by simp [pairRun], fun hvalid => ?_⟩
    have htime := hvalid.timely pairRefs.2 has_pairRefs.2 rfl
    exact absurd htime (by decide)
  · intro hvalid
    exact absurd (hvalid.time_le has_pairRefs.2 rfl) (by decide)

end Derive
