import TokamakTitan.Derive.BatchValidity
import TokamakTitan.Derive.Reset

/-! The alignment of the batch queue with the safe head after a reset to an L1 block before the
origin of the safe head, from where it follows the channel reader. -/
namespace Derive

theorem pipelineNumber_eq_iff (cfg : Config) (n : Uint64) :
    pipelineNumber cfg n = n ↔ cfg.channelTimeout = 0 ∨ n = 0 := by
  unfold pipelineNumber
  split
  next hlt => bv_omega
  next hle => bv_omega

theorem pipelineNumber_le (cfg : Config) (n : Uint64) : pipelineNumber cfg n ≤ n := by
  unfold pipelineNumber
  split
  next hlt => bv_omega
  next hle => bv_omega

structure L1Chain.Contiguous (l1 : L1Chain) : Prop where
  unique : ∀ {a b}, l1.Has a → l1.Has b → a.number = b.number → a = b
  parent : ∀ {b}, l1.Has b → b.number ≠ 0 → ∃ a, l1.Has a ∧ b.parentHash = a.hash

section Alignment

variable {cfg : Config} {l1 : L1Chain} {bq : BatchQueue} {head : L2BlockRef} {s t : BatchRun}
  {base origin : L1BlockRef} {first : L2BlockRef} {blocks : List L1BlockRef}

/-- The stored L1 blocks are those from the origin of the safe head to the origin of the pipeline.
-/
def Aligned (l1 : L1Chain) (head : L2BlockRef) (blocks : List L1BlockRef) (origin : L1BlockRef) :
    Prop :=
  Segment l1 blocks origin ∧ ∃ epoch rest, blocks = epoch :: rest ∧ head.l1Origin = epoch.id

theorem Segment.number_le {epoch : L1BlockRef} {rest : List L1BlockRef}
    (h : Segment l1 (epoch :: rest) origin) : epoch.number ≤ origin.number := by
  induction rest generalizing epoch with
  | nil =>
    have hlast : epoch = origin := h.last epoch (by simp)
    rw [hlast]
    exact BitVec.le_refl _
  | cons next rest ih =>
    have hsucc := (h.known epoch (by simp)).number_succ (h.known next (by simp))
      (List.isChain_cons_cons.mp h.linked).1
    have hle := ih h.tail
    bv_omega

theorem Aligned.not_behind (h : Aligned l1 head bq.l1Blocks bq.origin) :
    ¬ bq.origin.number < head.l1Origin.number := by
  obtain ⟨hsegment, epoch, rest, hblocks, hepoch⟩ := h
  rw [hblocks] at hsegment
  rw [hepoch]
  exact BitVec.not_lt.mpr hsegment.number_le

variable {prev : ReaderAnswers}

theorem Aligned.advance (h : Aligned l1 head bq.l1Blocks bq.origin) (hprev : prev.Follows l1 bq) :
    Aligned l1 head (bq.advance prev.origin false).l1Blocks prev.origin := by
  refine ⟨h.1.advance hprev.1 hprev.2 false, ?_⟩
  obtain ⟨-, epoch, rest, hblocks, hepoch⟩ := h
  unfold BatchQueue.advance
  split
  next => exact ⟨epoch, rest, hblocks, hepoch⟩
  next =>
    refine ⟨epoch, rest ++ [prev.origin], ?_, hepoch⟩
    simp [hblocks]

theorem checkBatch_future {l1Blocks : List L1BlockRef} {l1InclusionBlock : L1BlockRef}
    {batch : BatchData} (h : checkBatch cfg l1Blocks head l1InclusionBlock batch = .future) :
    head.time + cfg.blockTime < batch.timestamp := by
  unfold checkBatch at h
  split at h
  next => cases h
  next epoch rest =>
    split at h
    next => cases h
    next =>
      split at h
      next hfuture => exact hfuture
      next =>
        obtain ⟨-, h⟩ := of_ite_eq (by decide) h
        obtain ⟨-, h⟩ := of_ite_eq (by decide) h
        obtain ⟨-, h⟩ := of_ite_eq (by decide) h
        unfold batchOrigin at h
        split at h
        next validity hvalidity =>
          subst h
          split at hvalidity
          next => cases hvalidity
          next =>
            split at hvalidity
            next => cases hvalidity
            next =>
              split at hvalidity
              next => split at hvalidity <;> cases hvalidity
              next => cases hvalidity
        next =>
          obtain ⟨-, h⟩ := of_ite_eq (by decide) h
          obtain ⟨-, h⟩ := of_ite_eq (by decide) h
          split at h <;> cases h

variable {result : Except Error BatchData}

theorem Aligned.deriveEffect (h : Aligned l1 head bq.l1Blocks origin)
    (hkeyed : bq.Stores fun t batch => batch.timestamp = t)
    (heffect : bq.DeriveEffect cfg head blocks result) :
    (result = .error .eof ∧ Aligned l1 head blocks origin) ∨
    ∃ batch used more, result = .ok batch ∧ blocks = used :: more ∧ Segment l1 blocks origin ∧
      Fitting cfg l1 head batch used := by
  obtain ⟨hsegment, epoch, rest, hblocks, hepoch⟩ := h
  rw [hblocks] at hsegment
  cases heffect with
  | noOrigin hempty => cases hblocks.symm.trans hempty
  | mismatch hblocks' hne =>
    cases hblocks.symm.trans hblocks'
    exact absurd hepoch hne
  | future hblocks' _ hstored hfuture =>
    have hlate := checkBatch_future hfuture
    rw [hkeyed _ _ hstored] at hlate
    exact absurd hlate (BitVec.lt_irrefl _)
  | waiting hblocks' =>
    cases hblocks.symm.trans hblocks'
    exact .inl ⟨rfl, hsegment, epoch, rest, rfl, hepoch⟩
  | submitted hblocks' _ _ haccept =>
    cases hblocks.symm.trans hblocks'
    obtain ⟨used, more, hleft, hrest, hfits⟩ := hsegment.accepted hepoch haccept
    rw [hleft]
    exact .inr ⟨_, used, more, rfl, rfl, hrest, hfits⟩
  | stays hblocks' _ =>
    cases hblocks.symm.trans hblocks'
    exact .inr ⟨_, epoch, _, rfl, rfl, hsegment,
      fitting_emptyBatch (hsegment.nextOrigin_head hepoch)⟩
  | opens hblocks' _ _ =>
    cases hblocks.symm.trans hblocks'
    exact .inr ⟨_, _, _, rfl, rfl, hsegment.tail,
      fitting_emptyBatch (hsegment.nextOrigin_next hepoch)⟩

def Expected (prev : ReaderAnswers) (err : Error) : Prop :=
  err = .eof ∨ err = .notEnoughData ∨ prev.nextBatch = .error err

theorem Aligned.nextEffect (h : Aligned l1 head bq.l1Blocks bq.origin)
    (hkeyed : bq.Stores fun t batch => batch.timestamp = t) (hprev : prev.Follows l1 bq)
    (heffect : bq.NextEffect cfg prev head blocks result) :
    (∃ err, result = .error err ∧ Expected prev err ∧ Aligned l1 head blocks prev.origin) ∨
    ∃ batch used more, result = .ok batch ∧ blocks = used :: more ∧
      Segment l1 blocks prev.origin ∧ Fitting cfg l1 head batch used := by
  have hadvance := h.advance hprev
  cases heffect with
  | behind hbehind => exact absurd hbehind h.not_behind
  | failed _ herr => exact .inl ⟨_, rfl, .inr (.inr herr), hadvance⟩
  | unprepared _ hempty =>
    obtain ⟨-, epoch, rest, hblocks, -⟩ := hadvance
    cases hempty.symm.trans hblocks
  | derived _ hblocks hstores heffect =>
    rw [← hblocks] at hadvance
    rcases hadvance.deriveEffect (hstores _ (fun _ _ => rfl) hkeyed) heffect with
      ⟨rfl, haligned⟩ | hreturned
    · exact .inl ⟨_, rfl, .inl rfl, haligned⟩
    · exact .inr hreturned
  | more _ hblocks heffect =>
    rw [← hblocks] at hadvance
    cases heffect with
    | waiting hsame =>
      rw [hsame] at hadvance
      exact .inl ⟨_, rfl, .inr (.inl rfl), hadvance⟩

namespace BatchRun

/-- After a reset with the L1 origin `origin` of the safe head, the queue only waits while it is
below the origin, and from there on it is aligned and returns the next batches. -/
structure Serves (cfg : Config) (l1 : L1Chain) (origin : L1BlockRef) (s : BatchRun) : Prop where
  aligned : origin.number ≤ s.queue.origin.number →
    Aligned l1 s.safeHead s.queue.l1Blocks s.queue.origin
  below : ∀ prev, prev.Follows l1 s.queue → prev.origin.number < origin.number →
    ∃ err, (s.queue.nextBatch cfg prev s.safeHead).2 = .error err ∧ Expected prev err
  above : ∀ prev, prev.Follows l1 s.queue → origin.number ≤ prev.origin.number →
    (∃ err, (s.queue.nextBatch cfg prev s.safeHead).2 = .error err ∧ Expected prev err) ∨
    ∃ batch used, (s.queue.nextBatch cfg prev s.safeHead).2 = .ok batch ∧
      Fitting cfg l1 s.safeHead batch used

theorem Inv.keyed (h : s.Inv l1) : s.queue.Stores fun t batch => batch.timestamp = t :=
  fun time x hx => (h.stores time x hx).2

theorem Call.aligned (hcall : s.Call cfg l1 t) (hinv : s.Inv l1)
    (h : Aligned l1 s.safeHead s.queue.l1Blocks s.queue.origin) :
    Aligned l1 t.safeHead t.queue.l1Blocks t.queue.origin := by
  cases hcall with
  | waits prev hprev hcall =>
    obtain ⟨heffect, horigin⟩ := BatchQueue.nextBatch_eq hcall
    rcases h.nextEffect hinv.keyed hprev heffect with ⟨_, _, _, haligned⟩ | ⟨_, _, _, hok, _⟩
    · exact horigin ▸ haligned
    · cases hok
  | returns prev hprev hcall _ hhead =>
    obtain ⟨heffect, horigin⟩ := BatchQueue.nextBatch_eq hcall
    rcases h.nextEffect hinv.keyed hprev heffect with
      ⟨_, herr, _, _⟩ | ⟨_, used, more, hok, hleft, hsegment, hfits⟩
    · cases herr
    · cases hok
      refine ⟨horigin ▸ hsegment, used, more, hleft, ?_⟩
      rw [hhead, hfits.epoch]

theorem Call.follows (hcall : s.Call cfg l1 t) : ∃ prev : ReaderAnswers,
    prev.Follows l1 s.queue ∧ t.queue.origin = prev.origin := by
  cases hcall with
  | waits prev hprev hcall => exact ⟨prev, hprev, (BatchQueue.nextBatch_eq hcall).2⟩
  | returns prev hprev hcall => exact ⟨prev, hprev, (BatchQueue.nextBatch_eq hcall).2⟩

theorem number_le_of_follows (horigin : l1.Has s.queue.origin) (hprev : prev.Follows l1 s.queue) :
    s.queue.origin.number ≤ prev.origin.number := by
  rcases hprev.2 with heq | hlink
  · rw [heq]
    exact BitVec.le_refl _
  · have hsucc := horigin.number_succ hprev.1 hlink
    bv_omega

structure Steady (l1 : L1Chain) (origin : L1BlockRef) (s : BatchRun) : Prop where
  inv : s.Inv l1
  aligned : Aligned l1 s.safeHead s.queue.l1Blocks s.queue.origin
  has : l1.Has s.queue.origin
  above : origin.number ≤ s.queue.origin.number

theorem Steady.call (h : s.Steady l1 origin) (hcall : s.Call cfg l1 t) : t.Steady l1 origin := by
  obtain ⟨prev, hprev, horigin⟩ := hcall.follows
  refine ⟨h.inv.call hcall, hcall.aligned h.inv h.aligned, ?_, ?_⟩
  · rw [horigin]
    exact hprev.1
  · rw [horigin]
    exact BitVec.le_trans h.above (number_le_of_follows h.has hprev)

theorem Steady.serves (h : s.Steady l1 origin) : s.Serves cfg l1 origin := by
  refine ⟨fun _ => h.aligned, ?_, ?_⟩
  · intro prev hprev hbelow
    have hle := BitVec.le_trans h.above (number_le_of_follows h.has hprev)
    exact absurd hbelow (BitVec.not_lt.mpr hle)
  · intro prev hprev _
    rcases h.aligned.nextEffect h.inv.keyed hprev (BatchQueue.nextBatch_effect prev _ _) with
      ⟨err, herr, hexpected, _⟩ | ⟨batch, used, _, hok, _, _, hfits⟩
    · exact .inl ⟨err, herr, hexpected⟩
    · exact .inr ⟨batch, used, hok, hfits⟩

theorem steady_start (horigin : l1.Has origin) (hfirst : first.l1Origin = origin.id) :
    (start origin first).Steady l1 origin :=
  ⟨inv_reset horigin, ⟨Segment.singleton horigin, origin, [], rfl, hfirst⟩, horigin,
    BitVec.le_refl _⟩

theorem call_behind (cfg : Config) {b : L1BlockRef} (hb : l1.Has b)
    (hlink : b.parentHash = s.queue.origin.hash) (hne : s.queue.origin ≠ b)
    (hbehind : s.queue.origin.number < s.safeHead.l1Origin.number) :
    ∃ t, s.Call cfg l1 t ∧ t.safeHead = s.safeHead ∧ t.queue.origin = b ∧
      t.queue.l1Blocks = [] := by
  let prev : ReaderAnswers := { origin := b, nextBatch := .error .eof }
  have hcall : s.queue.nextBatch cfg prev s.safeHead =
      (s.queue.advance b true, .error .eof) := by
    simp only [BatchQueue.nextBatch, prev, hbehind, decide_true, if_true]
  refine ⟨_, .waits prev ⟨hb, .inr hlink⟩ hcall, rfl, ?_, ?_⟩
  · exact (BatchQueue.advance_frame ..).2
  · show (s.queue.advance b true).l1Blocks = []
    rw [BatchQueue.advance, if_neg hne]
    rfl

theorem exists_climb (cfg : Config) (first : L2BlockRef) (hchain : l1.Contiguous)
    (hbase : l1.Has base) (n : ℕ) {b : L1BlockRef} (hb : l1.Has b)
    (hnumber : b.number.toNat = base.number.toNat + n)
    (hle : b.number ≤ first.l1Origin.number) :
    ∃ s, Relation.ReflTransGen (Call cfg l1) (start base first) s ∧ s.safeHead = first ∧
      s.queue.origin = b ∧ (n ≠ 0 → s.queue.l1Blocks = []) := by
  induction n generalizing b with
  | zero =>
    have heq : base = b := hchain.unique hbase hb (BitVec.eq_of_toNat_eq (by omega))
    exact ⟨start base first, .refl, rfl, heq, by simp⟩
  | succ n ih =>
    obtain ⟨a, ha, hlink⟩ := hchain.parent hb (by bv_omega)
    have hsucc := ha.number_succ hb hlink
    obtain ⟨s, hrun, hhead, horigin, -⟩ := ih ha (by omega) (by bv_omega)
    have hne : s.queue.origin ≠ b := by
      rw [horigin]
      rintro rfl
      omega
    have hbehind : s.queue.origin.number < s.safeHead.l1Origin.number := by
      rw [horigin, hhead]
      bv_omega
    obtain ⟨t, hcall, hsame, hat, hempty⟩ :=
      call_behind cfg hb (horigin ▸ hlink) hne hbehind
    exact ⟨t, hrun.tail hcall, hsame.trans hhead, hat, fun _ => hempty⟩

/-- The queue serves after every reset exactly if the reset is to the L1 origin of the safe head
itself. -/
theorem batch_queue_serves_iff (hchain : l1.Contiguous) (horigin : l1.Has origin)
    (hfirst : first.l1Origin = origin.id) (hbase : l1.Has base)
    (hnumber : base.number = pipelineNumber cfg origin.number) :
    (∀ s, Relation.ReflTransGen (Call cfg l1) (start base first) s → s.Serves cfg l1 origin) ↔
      cfg.channelTimeout = 0 ∨ origin.number = 0 := by
  rw [← pipelineNumber_eq_iff, ← hnumber]
  constructor
  · intro hserves
    by_contra hne
    have hle : base.number ≤ origin.number := hnumber ▸ pipelineNumber_le cfg origin.number
    have hlow : first.l1Origin.number = origin.number := congrArg BlockID.number hfirst
    have hreach : origin.number ≤ first.l1Origin.number := hlow ▸ BitVec.le_refl _
    obtain ⟨s, hrun, -, hat, hempty⟩ := exists_climb cfg first hchain hbase
      (origin.number.toNat - base.number.toNat) horigin (by bv_omega) hreach
    obtain ⟨-, epoch, rest, hblocks, -⟩ := (hserves s hrun).aligned (hat ▸ BitVec.le_refl _)
    have hclimbed : origin.number.toNat - base.number.toNat ≠ 0 := by bv_omega
    rw [hempty hclimbed] at hblocks
    cases hblocks
  · intro heq s hrun
    have hsame : base = origin := hchain.unique hbase horigin heq
    subst hsame
    have hsteady : s.Steady l1 base := by
      induction hrun with
      | refl => exact steady_start horigin hfirst
      | tail _ hcall ih => exact ih.call hcall
    exact hsteady.serves

end BatchRun

end Alignment

def youngBlocks : List L1Block :=
  [⟨⟨0xa0, 0, 0, 988, 1, 7⟩, []⟩, ⟨⟨0xa1, 0xa0, 1, 1000, 2, 8⟩, []⟩]

def youngL1 : L1Chain := .ofBlocks youngBlocks (by decide)

def youngRefs : L1BlockRef × L1BlockRef :=
  (⟨0xa0, 0, 0, 988⟩, ⟨0xa1, 1, 0xa0, 1000⟩)

theorem has_youngRefs : youngL1.Has youngRefs.1 ∧ youngL1.Has youngRefs.2 :=
  ⟨⟨_, rfl, rfl⟩, ⟨_, rfl, rfl⟩⟩

theorem eq_of_has_youngL1 {ref : L1BlockRef} (h : youngL1.Has ref) :
    ref = youngRefs.1 ∨ ref = youngRefs.2 := by
  obtain ⟨b, hb, rfl⟩ := h
  have hmem := List.mem_of_find?_eq_some hb
  simp only [youngBlocks, List.mem_cons, List.not_mem_nil, or_false] at hmem
  rcases hmem with rfl | rfl
  · exact .inl rfl
  · exact .inr rfl

theorem contiguous_youngL1 : youngL1.Contiguous := by
  constructor
  · intro a b ha hb hnumber
    rcases eq_of_has_youngL1 ha with rfl | rfl
    · rcases eq_of_has_youngL1 hb with rfl | rfl
      · rfl
      · exact absurd hnumber (by decide)
    · rcases eq_of_has_youngL1 hb with rfl | rfl
      · exact absurd hnumber (by decide)
      · rfl
  · intro b hb hnumber
    rcases eq_of_has_youngL1 hb with rfl | rfl
    · exact absurd rfl hnumber
    · exact ⟨youngRefs.1, has_youngRefs.1, rfl⟩

def youngHead : L2BlockRef := ⟨0xc1, 5, 0xbf, 1010, ⟨0xa1, 1⟩, 4⟩

def youngReader : ReaderAnswers := { origin := youngRefs.2, nextBatch := .error .eof }

def youngServed : BatchRun where
  queue := ((BatchQueue.reset youngRefs.2).nextBatch { devnetConfig with channelTimeout := 0 }
    youngReader youngHead).1
  safeHead := youngHead
  offered := []
  returned := []

theorem batch_queue_serves_at_origin :
    youngServed.Serves { devnetConfig with channelTimeout := 0 } youngL1 youngRefs.2 := by
  have horigin : youngHead.l1Origin = youngRefs.2.id := rfl
  refine (BatchRun.batch_queue_serves_iff contiguous_youngL1 has_youngRefs.2 horigin
    has_youngRefs.2 rfl).mpr (.inl rfl) youngServed (.single ?_)
  refine .waits youngReader ⟨has_youngRefs.2, .inl rfl⟩ (Prod.ext rfl ?_)
  decide +kernel

def youngQueue : BatchQueue :=
  ((BatchQueue.reset youngRefs.1).nextBatch devnetConfig youngReader youngHead).1

/-- At the origin of the safe head the queue has no L1 block: the next call fails, or crashes if
there is a batch, and after the next L1 block it asks for a reset. -/
theorem batch_queue_unprepared :
    Relation.ReflTransGen (BatchRun.Call devnetConfig youngL1)
      (BatchRun.start youngRefs.1 youngHead)
      { queue := youngQueue, safeHead := youngHead, offered := [], returned := [] } ∧
    (youngQueue.nextBatch devnetConfig youngReader youngHead).2 =
      .error (.critical "cannot derive next batch, no origin was prepared") ∧
    (youngQueue.nextBatch devnetConfig { youngReader with nextBatch := .ok (pairBatch 1010) }
      youngHead).2 = .error .panic ∧
    (youngQueue.nextBatch devnetConfig
      { origin := ⟨0xa2, 2, 0xa1, 1012⟩
        nextBatch := .error .eof } youngHead).2 =
      .error (.reset "buffered L1 chain epoch in batch queue does not match safe head") := by
  refine ⟨.single (.waits youngReader ⟨has_youngRefs.2, .inr rfl⟩ (Prod.ext rfl ?_)), ?_, ?_, ?_⟩
  · decide +kernel
  · decide +kernel
  · decide +kernel
  · decide +kernel

end Derive
