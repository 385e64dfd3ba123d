import TokamakTitan.Derive.BatchAlignment
import TokamakTitan.Derive.ChannelOut
import TokamakTitan.Derive.DepositsOnce

/-! The sequencer: the L1 origin and the attributes of the block that it builds on the unsafe head,
and what the batch filter says of its batch. -/
namespace Derive
open Checked List

structure L1Refs where
  byHash : Hash → Except String L1BlockRef
  byNumber : Uint64 → Except String L1BlockRef

structure SequencerState where
  queue : EngineQueue
  l1Head : L1BlockRef
  sequencerConfDepth : Uint64

inductive SequencerError where
  | origin (err : String)
  | beforeOrigin
  | attributes (err : Error)
  | insertion (err : BlockInsertionErr)
  | blockRef (err : String)
  deriving DecidableEq

section Sequence

variable (keccak : Bytes → Hash) (codec : TxCodec) (cfg : Config) (refs : L1Refs)
  (dl : L1Answers) (eng : EngineAnswers)

/-- The L1 origin of the unsafe head, or the next L1 block if its time has come. -/
def findL1Origin (s : SequencerState) : Except String L1BlockRef :=
  let l2Head := s.queue.unsafeHead
  if l2Head.l1Origin.hash = s.l1Head.hash then .ok s.l1Head
  else match refs.byHash l2Head.l1Origin.hash with
    | .error err => .error err
    | .ok currentOrigin =>
      if currentOrigin.number + 1 + s.sequencerConfDepth > s.l1Head.number then .ok currentOrigin
      else match refs.byNumber (currentOrigin.number + 1) with
        | .error _ => .ok currentOrigin
        | .ok nextOrigin =>
          if l2Head.time + cfg.blockTime ≥ nextOrigin.time then .ok nextOrigin
          else .ok currentOrigin

/-- The attributes that the sequencer asks for, without the transaction pool beyond the drift. -/
def sequencerAttributes (l2Head : L2BlockRef) (l1Origin : L1BlockRef) :
    Except Error PayloadAttributes := do
  let attrs ← preparePayloadAttributes keccak codec cfg dl l2Head (l2Head.time + cfg.blockTime)
    l1Origin.id
  return { attrs with noTxPool := attrs.timestamp ≥ l1Origin.time + cfg.maxSequencerDrift }

def createNewBlock (l2Head : L2BlockRef) (l2SafeHead l2Finalized : Hash)
    (l1Origin : L1BlockRef) : Except SequencerError (L2BlockRef × ExecutionPayload) :=
  match sequencerAttributes keccak codec cfg dl l2Head l1Origin with
  | .error err => .error (.attributes err)
  | .ok attrs =>
    let fc : ForkchoiceState :=
      { headBlockHash := l2Head.hash
        safeBlockHash := l2SafeHead
        finalizedBlockHash := l2Finalized }
    match insertHeadBlock eng fc attrs false with
    | .error err => .error (.insertion err)
    | .ok payload =>
      match payloadToBlockRef codec payload cfg.genesis with
      | .error err => .error (.blockRef err)
      | .ok ref => .ok (ref, payload)

/-- A block on top of the unsafe head becomes the unsafe head. None is made before the first L1
block of the rollup. -/
def createNewL2Block (s : SequencerState) :
    SequencerState × Except SequencerError (Option ExecutionPayload) :=
  match findL1Origin cfg refs s with
  | .error err => (s, .error (.origin err))
  | .ok l1Origin =>
    if l1Origin.number < cfg.genesis.l1.number then (s, .ok none)
    else if s.queue.unsafeHead.time + cfg.blockTime < l1Origin.time then (s, .error .beforeOrigin)
    else match createNewBlock keccak codec cfg dl eng s.queue.unsafeHead s.queue.safeHead.hash
        s.queue.finalized.hash l1Origin with
      | .error err => (s, .error err)
      | .ok (ref, payload) => ({ s with queue := s.queue.setUnsafeHead ref }, .ok (some payload))

end Sequence

/-- A block that the engine builds has the requested parent and time, and transactions of the pool
after the requested ones, unless they are excluded. -/
def EngineAnswers.Pools (eng : EngineAnswers) : Prop :=
  ∀ {fc attrs fcRes id payload}, eng.forkchoiceUpdate fc (some attrs) = .ok fcRes →
    fcRes.payloadID = some id → eng.getPayload id = .ok payload →
    payload.parentHash = fc.headBlockHash ∧ payload.timestamp = attrs.timestamp ∧
      ∃ pool, payload.transactions = attrs.transactions ++ pool ∧ SequencerTxs pool ∧
        (attrs.noTxPool = true → pool = [])

structure L1Refs.From (refs : L1Refs) (l1 : L1Chain) : Prop where
  byHash : ∀ {h ref}, refs.byHash h = .ok ref → l1.Has ref ∧ ref.hash = h
  byNumber : ∀ {n ref}, refs.byNumber n = .ok ref → l1.Has ref

def L1Chain.Unforked (l1 : L1Chain) : Prop :=
  ∀ {a b}, l1.Has a → l1.Has b → a.number = b.number → a = b

section Agreement

variable {keccak : Bytes → Hash} {codec : TxCodec} {cfg : Config} {refs : L1Refs}
  {dl : L1Answers} {eng : EngineAnswers} {l1 : L1Chain} {s t : SequencerState}
  {l1Origin : L1BlockRef} {l2Head : L2BlockRef} {payload : ExecutionPayload}

theorem has_findL1Origin (hrefs : refs.From l1) (hl1Head : l1.Has s.l1Head)
    (h : findL1Origin cfg refs s = .ok l1Origin) : l1.Has l1Origin := by
  unfold findL1Origin at h
  dsimp only at h
  split at h
  next =>
    cases h
    exact hl1Head
  next =>
    split at h
    next => cases h
    next currentOrigin hcurrent =>
      split at h
      next =>
        cases h
        exact (hrefs.byHash hcurrent).1
      next =>
        split at h
        next =>
          cases h
          exact (hrefs.byHash hcurrent).1
        next nextOrigin hnext =>
          split at h
          next =>
            cases h
            exact hrefs.byNumber hnext
          next =>
            cases h
            exact (hrefs.byHash hcurrent).1

theorem createNewL2Block_eq_ok
    (h : createNewL2Block keccak codec cfg refs dl eng s = (t, .ok (some payload))) :
    ∃ l1Origin ref, findL1Origin cfg refs s = .ok l1Origin ∧
      createNewBlock keccak codec cfg dl eng s.queue.unsafeHead s.queue.safeHead.hash
        s.queue.finalized.hash l1Origin = .ok (ref, payload) := by
  unfold createNewL2Block at h
  split at h
  next => cases h
  next l1Origin horigin =>
    split at h
    next => cases h
    next =>
      split at h
      next => cases h
      next =>
        split at h
        next => cases h
        next ref built hbuilt =>
          cases h
          exact ⟨l1Origin, ref, horigin, hbuilt⟩

theorem createNewBlock_batch {safeHash finalizedHash : Hash} {ref : L2BlockRef} (hdl : dl.From l1)
    (heng : eng.Pools) (h : createNewBlock keccak codec cfg dl eng l2Head safeHash finalizedHash
      l1Origin = .ok (ref, payload)) :
    ∃ origin seqNumber deposits batch, l1.block l1Origin.hash = some origin ∧
      Epoch keccak codec cfg l2Head origin seqNumber deposits ∧
      blockToBatch codec payload = .ok batch ∧ batch.parentHash = l2Head.hash ∧
      batch.epoch = origin.info.id ∧ batch.timestamp = l2Head.time + cfg.blockTime ∧
      SequencerTxs batch.transactions := by
  unfold createNewBlock at h
  split at h
  next => cases h
  next attrs hattrs =>
    dsimp only at h
    split at h
    next => cases h
    next built hinsert =>
      split at h
      next => cases h
      next =>
        cases h
        simp only [sequencerAttributes, bind_eq_ok, pure_eq_ok] at hattrs
        obtain ⟨prepared, hprepared, rfl⟩ := hattrs
        obtain ⟨origin, seqNumber, deposits, l1InfoTx, hblock, hepoch, hinfo, htime, htxs⟩ :=
          preparePayloadAttributes_eq_ok hdl hprepared
        obtain ⟨fcRes, id, hstart, hid, hget, -⟩ := insertHeadBlock_eq_ok hinsert
        obtain ⟨hparent, htime', pool, htxs', hpool, -⟩ := heng hstart hid hget
        have hall : payload.transactions = l1InfoTx :: (deposits ++ pool) := by
          rw [htxs']
          show prepared.transactions ++ pool = _
          rw [htxs, cons_append]
        refine ⟨origin, seqNumber, deposits, _, hblock, hepoch, blockToBatch_eq_ok hinfo hall,
          hparent, rfl, htime'.trans htime, ?_⟩
        have hkept : payload.transactions.filter (fun tx => !isDeposit tx) = pool := by
          rw [hall, filter_cons_of_neg (by simp [isDeposit_l1InfoDepositBytes hinfo]),
            filter_append, filter_eq_nil_iff.mpr, nil_append,
            filter_eq_self.mpr]
          · intro tx htx
            simp [(hpool tx htx).2]
          · intro tx htx
            simp [hepoch.isDeposit tx htx]
        dsimp only
        rw [hkept]
        exact hpool

variable {batch : BatchData}

theorem Aligned.batchOrigin {l1Blocks : List L1BlockRef} {last : L1BlockRef} {origin : L1Block}
    {seqNumber : Uint64} {deposits : List Bytes} (h : Aligned l1 l2Head l1Blocks last)
    (hchain : l1.Unforked) (horigin : l1.Has l1Origin)
    (hblock : l1.block l1Origin.hash = some origin)
    (hepoch : Epoch keccak codec cfg l2Head origin seqNumber deposits)
    (hpast : l1Origin.number < last.number) (hbatch : batch.epoch = l1Origin.id) :
    ∃ epoch rest, l1Blocks = epoch :: rest ∧ epoch.hash = l2Head.l1Origin.hash ∧
      batchOrigin epoch rest batch = .ok l1Origin := by
  obtain ⟨hsegment, epoch, rest, rfl, hfirst⟩ := h
  have hhas : l1.Has epoch := hsegment.known epoch (by simp)
  have hhash : epoch.hash = l2Head.l1Origin.hash := by
    rw [hfirst]
    rfl
  have hnumber : batch.epochNum = l1Origin.number := congrArg BlockID.number hbatch
  refine ⟨epoch, rest, rfl, hhash, ?_⟩
  obtain ⟨b, hb, href⟩ := horigin
  cases hblock.symm.trans hb
  have horigin : l1.Has l1Origin := ⟨origin, hblock, href⟩
  unfold Derive.batchOrigin
  rw [hnumber]
  cases hepoch with
  | later hsame =>
    have heq : l1Origin = epoch := by
      refine horigin.unique hhas ?_
      rw [← href, hhash]
      exact hsame
    rw [heq, if_neg (BitVec.lt_irrefl _), if_pos rfl]
  | first hparent =>
    have hlink : l1Origin.parentHash = epoch.hash := by
      rw [← href, hhash]
      exact hparent
    have hsucc := hhas.number_succ horigin hlink
    rw [if_neg (by bv_omega), if_neg (by bv_omega), if_pos (by bv_omega)]
    cases rest with
    | nil =>
      have hlast : epoch = last := hsegment.last epoch (by simp)
      rw [← hlast] at hpast
      bv_omega
    | cons next =>
      have hnext : l1.Has next := hsegment.known next (by simp)
      have hsucc' := hhas.number_succ hnext (isChain_cons_cons.mp hsegment.linked).1
      dsimp only
      rw [hchain hnext horigin (by bv_omega)]

theorem checkBatch_eq_drift {epoch l1InclusionBlock : L1BlockRef} {rest : List L1BlockRef}
    (hepoch : epoch.hash = l2Head.l1Origin.hash)
    (htime : batch.timestamp = l2Head.time + cfg.blockTime)
    (hparent : batch.parentHash = l2Head.hash)
    (hlate : ¬ batch.epochNum + cfg.seqWindowSize < l1InclusionBlock.number)
    (horigin : batchOrigin epoch rest batch = .ok l1Origin)
    (hhash : batch.epochHash = l1Origin.hash) (htxs : SequencerTxs batch.transactions) :
    checkBatch cfg (epoch :: rest) l2Head l1InclusionBlock batch =
      if batch.timestamp > l1Origin.time + cfg.maxSequencerDrift then .drop else .accept := by
  have hany : (batch.transactions.any fun tx => tx.isEmpty || isDeposit tx) = false := by
    rw [any_eq_false]
    intro tx htx
    simpa using htxs tx htx
  unfold checkBatch
  dsimp only
  rw [if_neg (not_not.mpr hepoch), htime, if_neg (BitVec.lt_irrefl _), if_neg (BitVec.lt_irrefl _),
    if_neg (not_not.mpr hparent), if_neg hlate, horigin]
  dsimp only
  rw [if_neg (not_not.mpr hhash), hany]
  simp

/-- The batch of a block of the sequencer is accepted exactly when the time of the block is within
the drift, also if the block is empty. -/
theorem sequenced_batch_accepted_iff (hchain : l1.Unforked) (hrefs : refs.From l1)
    (hl1Head : l1.Has s.l1Head) (hdl : dl.From l1) (heng : eng.Pools)
    (hbuild : createNewL2Block keccak codec cfg refs dl eng s = (t, .ok (some payload))) :
    ∃ l1Origin batch, findL1Origin cfg refs s = .ok l1Origin ∧ l1.Has l1Origin ∧
      blockToBatch codec payload = .ok batch ∧ batch.epoch = l1Origin.id ∧
      ∀ l1Blocks last l1InclusionBlock, Aligned l1 s.queue.unsafeHead l1Blocks last →
        l1Origin.number < last.number →
        l1InclusionBlock.number.toNat ≤ l1Origin.number.toNat + cfg.seqWindowSize.toNat →
        l1Origin.number.toNat + cfg.seqWindowSize.toNat < 2 ^ 64 →
        (checkBatch cfg l1Blocks s.queue.unsafeHead l1InclusionBlock batch = .accept ↔
          s.queue.unsafeHead.time + cfg.blockTime ≤ l1Origin.time + cfg.maxSequencerDrift) := by
  obtain ⟨l1Origin, ref, horigin, hnew⟩ := createNewL2Block_eq_ok hbuild
  have hhas := has_findL1Origin hrefs hl1Head horigin
  obtain ⟨origin, seqNumber, deposits, batch, hblock, hepoch, hbatch, hparent, hid, htime, htxs⟩ :=
    createNewBlock_batch hdl heng hnew
  have hepochId : batch.epoch = l1Origin.id := by
    obtain ⟨b, hb, href⟩ := hhas
    cases hblock.symm.trans hb
    rw [hid, ← href]
    rfl
  refine ⟨l1Origin, batch, horigin, hhas, hbatch, hepochId, ?_⟩
  intro l1Blocks last l1InclusionBlock haligned hpast hincluded hrange
  obtain ⟨epoch, rest, rfl, hfirst, hfound⟩ :=
    haligned.batchOrigin hchain hhas hblock hepoch hpast hepochId
  have hnumber : batch.epochNum = l1Origin.number := congrArg BlockID.number hepochId
  rw [checkBatch_eq_drift hfirst htime hparent (by rw [hnumber]; bv_omega) hfound
    (congrArg BlockID.hash hepochId) htxs, htime]
  split
  next hbeyond => simpa using hbeyond
  next hwithin => simpa using hwithin

end Agreement

def driftBlocks : List L1Block :=
  [⟨⟨0xb1, 0xa1, 101, 1012, 2, 8⟩, []⟩, ⟨⟨0xb2, 0xb1, 102, 1700, 3, 8⟩, []⟩]

def driftL1 : L1Chain := .ofBlocks driftBlocks (by decide)

def driftOrigin : L1BlockRef := ⟨0xb1, 101, 0xa1, 1012⟩

def driftNext : L1BlockRef := ⟨0xb2, 102, 0xb1, 1700⟩

theorem has_driftOrigin : driftL1.Has driftOrigin := ⟨_, rfl, rfl⟩

theorem has_driftNext : driftL1.Has driftNext := ⟨_, rfl, rfl⟩

theorem unforked_driftL1 : driftL1.Unforked := by
  have hcases : ∀ {ref}, driftL1.Has ref → ref = driftOrigin ∨ ref = driftNext := by
    rintro ref ⟨b, hb, rfl⟩
    have hmem := mem_of_find?_eq_some hb
    simp only [driftBlocks, mem_cons, not_mem_nil, or_false] at hmem
    rcases hmem with rfl | rfl
    · exact .inl rfl
    · exact .inr rfl
  intro a b ha hb hnumber
  rcases hcases ha with rfl | rfl <;> rcases hcases hb with rfl | rfl <;>
    first | rfl | exact absurd hnumber (by decide)

def driftRefs : L1Refs where
  byHash h := if h = 0xb1 then .ok driftOrigin else .error "not found"
  byNumber _ := .error "not found"

theorem from_driftRefs : driftRefs.From driftL1 := by
  constructor
  · intro h ref href
    unfold driftRefs at href
    dsimp only at href
    split at href
    next heq =>
      cases href
      exact ⟨has_driftOrigin, heq.symm⟩
    next => cases href
  · intro n ref href
    cases href

variable (time : Uint64)

def driftHead : L2BlockRef := ⟨0xc5, 60, 0xc4, time, ⟨0xb1, 101⟩, 0⟩

def driftState : SequencerState where
  queue := { epochQueue with unsafeHead := driftHead time }
  l1Head := driftOrigin
  sequencerConfDepth := 0

def driftAttributes : PayloadAttributes :=
  (sequencerAttributes epochKeccak256 depositCodec devnetConfig driftL1.answers (driftHead time)
    driftOrigin).toOption.getD idleAttributes

def driftPool (noTxPool : Bool) : List Bytes := if noTxPool then [] else [[0x02, 0x2a]]

variable (attrs : PayloadAttributes)

def driftPayload : ExecutionPayload :=
  { attrs.block (driftHead 0) 0xc6 with
    transactions := attrs.transactions ++ driftPool attrs.noTxPool }

def driftEngine : EngineAnswers :=
  engineFor (fun fc requested => requested = attrs ∧ fc.headBlockHash = 0xc5) (driftPayload attrs)
    (fun _ => .valid) (.error .notFound)

theorem pools_driftEngine : (driftEngine attrs).Pools := by
  intro fc requested fcRes id payload hstart hid hget
  obtain ⟨hattrs, hhead⟩ := of_decide_eq_true (engineFor_starts hstart).1
  rw [hattrs, hhead, ← Except.ok.inj hget]
  refine ⟨rfl, rfl, driftPool attrs.noTxPool, rfl, ?_, ?_⟩
  · cases attrs.noTxPool with
    | true => simp [driftPool, SequencerTxs]
    | false => simp [driftPool, SequencerTxs, isDeposit, depositTxType]
  · intro hpool
    rw [hpool]
    rfl

def driftBuild : SequencerState × Except SequencerError (Option ExecutionPayload) :=
  createNewL2Block epochKeccak256 depositCodec devnetConfig driftRefs driftL1.answers
    (driftEngine (driftAttributes time)) (driftState time)

theorem aligned_driftHead :
    Aligned driftL1 (driftHead time) [driftOrigin, driftNext] driftNext := by
  refine ⟨⟨?_, ?_, by simp⟩, driftOrigin, [driftNext], rfl, rfl⟩
  · simp [has_driftOrigin, has_driftNext]
  · simp [driftNext, driftOrigin]

theorem sequenced_batch_accepted_sample :
    ∃ batch, blockToBatch depositCodec (driftPayload (driftAttributes 1018)) = .ok batch ∧
      checkBatch devnetConfig [driftOrigin, driftNext] (driftHead 1018) driftNext batch =
        .accept := by
  have hresult : (driftBuild 1018).2 = .ok (some (driftPayload (driftAttributes 1018))) := by
    decide +kernel
  have hbuild : driftBuild 1018 =
      ((driftBuild 1018).1, .ok (some (driftPayload (driftAttributes 1018)))) := by
    rw [← hresult]
  obtain ⟨l1Origin, batch, horigin, -, hbatch, -, haccept⟩ := sequenced_batch_accepted_iff
    unforked_driftL1 from_driftRefs has_driftOrigin driftL1.from_answers (pools_driftEngine _)
    hbuild
  have hfound : findL1Origin devnetConfig driftRefs (driftState 1018) = .ok driftOrigin := by
    decide +kernel
  have hsame : l1Origin = driftOrigin := Except.ok.inj (horigin.symm.trans hfound)
  rw [hsame] at haccept
  exact ⟨batch, hbatch, (haccept _ _ driftNext (aligned_driftHead 1018) (by decide) (by decide)
    (by decide)).mpr (by decide)⟩

/-- The block at time 1614 is empty, as it is beyond the drift, and its batch is dropped for the
same reason. -/
theorem sequenced_empty_batch_dropped :
    (driftBuild 1612).2 = .ok (some (driftPayload (driftAttributes 1612))) ∧
    (driftAttributes 1612).noTxPool = true ∧
    ∃ batch, blockToBatch depositCodec (driftPayload (driftAttributes 1612)) = .ok batch ∧
      batch.transactions = [] ∧
      checkBatch devnetConfig [driftOrigin, driftNext] (driftHead 1612) driftNext batch =
        .drop := by
  refine ⟨by decide +kernel, by decide +kernel,
    { parentHash := 0xc5
      epochNum := 101
      epochHash := 0xb1
      timestamp := 1614
      transactions := [] }, by decide +kernel, rfl, by decide +kernel⟩

end Derive
