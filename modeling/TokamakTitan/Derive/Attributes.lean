import TokamakTitan.Derive.Deposits

/-! From batches to payload attributes: which batches are accepted, how the attributes of the next
block are made, and how a block is read back. -/
namespace Derive
open Checked

inductive BatchValidity where
  | drop
  | accept
  | undecided
  | future
  deriving DecidableEq

/-- The L1 block that a batch names as its epoch, next to the current epoch `epoch`. -/
def batchOrigin (epoch : L1BlockRef) (rest : List L1BlockRef) (batch : BatchData) :
    Except BatchValidity L1BlockRef :=
  if batch.epochNum < epoch.number then .error .drop
  else if batch.epochNum = epoch.number then .ok epoch
  else if batch.epochNum = epoch.number + 1 then
    match rest with
    | [] => .error .undecided
    | next :: _ => .ok next
  else .error .drop

def checkBatch (cfg : Config) (l1Blocks : List L1BlockRef) (l2SafeHead : L2BlockRef)
    (l1InclusionBlock : L1BlockRef) (batch : BatchData) : BatchValidity :=
  match l1Blocks with
  | [] => .undecided
  | epoch :: rest =>
    if epoch.hash ≠ l2SafeHead.l1Origin.hash then .undecided
    else if batch.timestamp > l2SafeHead.time + cfg.blockTime then .future
    else if batch.timestamp < l2SafeHead.time + cfg.blockTime then .drop
    else if batch.parentHash ≠ l2SafeHead.hash then .drop
    else if batch.epochNum + cfg.seqWindowSize < l1InclusionBlock.number then .drop
    else match batchOrigin epoch rest batch with
      | .error validity => validity
      | .ok origin =>
        if batch.epochHash ≠ origin.hash then .drop
        else if batch.timestamp > origin.time + cfg.maxSequencerDrift then .drop
        else if batch.transactions.any fun tx => tx.isEmpty || isDeposit tx then .drop
        else .accept

inductive ReceiptsAnswer where
  | failed (err : String)
  | bad (err : String)
  | receipts (receipts : List Receipt)
  deriving DecidableEq

structure L1Answers where
  fetch : Hash → Except String (BlockInfo × ReceiptsAnswer)
  infoByHash : Hash → Except String BlockInfo

section Prepare

variable (keccak : Bytes → Hash) (codec : TxCodec) (cfg : Config) (dl : L1Answers)
  (l2Parent : L2BlockRef) (epoch : BlockID)

/-- The first block of an epoch: the header, the user deposits and the sequence number. -/
def openEpoch : Except Error (BlockInfo × List Bytes × Uint64) :=
  match dl.fetch epoch.hash with
  | .error err =>
    .error (.temporary s!"failed to fetch L1 block info and receipts: {err}")
  | .ok (info, answer) =>
    if l2Parent.l1Origin.hash ≠ info.parentHash then
      .error (.reset "cannot create new block with L1 origin on top of L1 origin")
    else match answer with
      | .failed err => .error (.temporary s!"failed to fetch more receipts: {err}")
      | .bad err => .error (.reset s!"fetched bad receipt data: {err}")
      | .receipts receipts =>
        match deriveDeposits keccak codec receipts cfg.depositContractAddress with
        | (deposits, []) => .ok (info, deposits, 0)
        | (_, errs) => .error (.critical s!"failed to derive some deposits: {errs}")

def stayInEpoch : Except Error (BlockInfo × List Bytes × Uint64) :=
  if l2Parent.l1Origin.hash ≠ epoch.hash then
    .error (.reset "cannot create new block with L1 origin in conflict with L1 origin")
  else match dl.infoByHash epoch.hash with
    | .error err => .error (.temporary s!"failed to fetch L1 block info: {err}")
    | .ok info => .ok (info, [], l2Parent.sequenceNumber + 1)

/-- The receipts are scanned for user deposits only when the L1 origin changes. -/
def epochData : Except Error (BlockInfo × List Bytes × Uint64) :=
  if l2Parent.l1Origin.number ≠ epoch.number then openEpoch keccak codec cfg dl l2Parent epoch
  else stayInEpoch dl l2Parent epoch

def preparePayloadAttributes (timestamp : Uint64) (epoch : BlockID) :
    Except Error PayloadAttributes := do
  let (l1Info, depositTxs, seqNumber) ← epochData keccak codec cfg dl l2Parent epoch
  match l1InfoDepositBytes keccak codec seqNumber l1Info with
  | .error err => .error (.critical s!"failed to create l1InfoTx: {err}")
  | .ok l1InfoTx =>
    .ok {
      timestamp
      prevRandao := l1Info.mixDigest
      suggestedFeeRecipient := cfg.feeRecipientAddress
      transactions := l1InfoTx :: depositTxs
      noTxPool := true }

def createNextAttributes (batch : BatchData) (l2SafeHead : L2BlockRef) :
    Except Error PayloadAttributes :=
  if batch.parentHash ≠ l2SafeHead.hash then .error (.reset "valid batch has bad parent hash")
  else do
    let attrs ← preparePayloadAttributes keccak codec cfg dl l2SafeHead batch.timestamp batch.epoch
    return { attrs with
      noTxPool := true
      transactions := attrs.transactions ++ batch.transactions }

/-- The attributes queue keeps a batch until its attributes are made. `prev` is the answer of the
batch queue, which is asked only when no batch is kept. -/
def nextAttributes (prev : Except Error BatchData) (kept : Option BatchData)
    (l2SafeHead : L2BlockRef) : Option BatchData × Except Error PayloadAttributes :=
  match kept.map Except.ok |>.getD prev with
  | .error err => (none, .error err)
  | .ok batch =>
    match createNextAttributes keccak codec cfg dl batch l2SafeHead with
    | .error err => (some batch, .error err)
    | .ok attrs => (none, .ok attrs)

end Prepare

variable (codec : TxCodec)

/-- The L1 origin and the sequence number of a block, from its first transaction. -/
def readL1Info (transactions : List Bytes) : Except String (BlockID × Uint64) :=
  match transactions with
  | [] => .error "l2 block is missing L1 info deposit tx"
  | first :: _ =>
    match codec.unmarshalBinary first with
    | .error err => .error s!"failed to decode first tx to read l1 info from: {err}"
    | .ok tx =>
      if tx.type ≠ depositTxType then .error "first payload tx has unexpected tx type"
      else match l1InfoDepositTxData tx.data with
        | .error err => .error s!"failed to parse L1 info deposit tx from L2 block: {err}"
        | .ok info =>
          .ok ({ hash := info.blockHash, number := info.number }, info.sequenceNumber)

def readOrigin (payload : ExecutionPayload) (genesis : Genesis) :
    Except String (BlockID × Uint64) :=
  if payload.blockNumber = genesis.l2.number then
    if payload.blockHash ≠ genesis.l2.hash then
      .error "expected L2 genesis hash to match L2 block at genesis block number"
    else .ok (genesis.l1, 0)
  else readL1Info codec payload.transactions

def payloadToBlockRef (payload : ExecutionPayload) (genesis : Genesis) :
    Except String L2BlockRef := do
  let (l1Origin, sequenceNumber) ← readOrigin codec payload genesis
  return {
    hash := payload.blockHash
    number := payload.blockNumber
    parentHash := payload.parentHash
    time := payload.timestamp
    l1Origin
    sequenceNumber }

/-- Whether a block is what the attributes ask for on top of `parentHash`. -/
def attributesMatchBlock (attrs : PayloadAttributes) (parentHash : Hash)
    (block : ExecutionPayload) : Except String Unit :=
  if parentHash ≠ block.parentHash then .error "parent hash field does not match"
  else if attrs.timestamp ≠ block.timestamp then .error "timestamp field does not match"
  else if attrs.prevRandao ≠ block.prevRandao then .error "random field does not match"
  else if attrs.transactions.length ≠ block.transactions.length then
    .error "transaction count does not match"
  else if attrs.transactions ≠ block.transactions then .error "transaction does not match"
  else .ok ()

structure L1Block where
  info : BlockInfo
  receipts : List Receipt

structure L1Chain where
  block : Hash → Option L1Block
  hash_eq : ∀ {h b}, block h = some b → b.info.hash = h
  number_succ : ∀ {h b parent}, block h = some b → block b.info.parentHash = some parent →
    b.info.number.toNat = parent.info.number.toNat + 1

def L1Chain.ofBlocks (blocks : List L1Block)
    (hnumbers : ∀ b ∈ blocks, ∀ parent ∈ blocks, b.info.parentHash = parent.info.hash →
      b.info.number.toNat = parent.info.number.toNat + 1) : L1Chain where
  block h := blocks.find? fun b => b.info.hash = h
  hash_eq := by
    intro h b hb
    simpa using List.find?_some hb
  number_succ := by
    intro h b parent hb hparent
    have hhash : parent.info.hash = b.info.parentHash := by
      simpa using List.find?_some hparent
    exact hnumbers b (List.mem_of_find?_eq_some hb) parent (List.mem_of_find?_eq_some hparent)
      hhash.symm

/-- The answers are about blocks of the chain. -/
structure L1Answers.From (dl : L1Answers) (l1 : L1Chain) : Prop where
  fetch : ∀ {h info receipts}, dl.fetch h = .ok (info, .receipts receipts) →
    l1.block h = some { info, receipts }
  infoByHash : ∀ {h info}, dl.infoByHash h = .ok info →
    ∃ receipts, l1.block h = some { info, receipts }

def SequencerTxs (txs : List Bytes) : Prop := ∀ tx ∈ txs, tx ≠ [] ∧ isDeposit tx = false

theorem of_ite_eq {α : Type} {p : Prop} [Decidable p] {a b c : α} (hne : a ≠ c)
    (h : (if p then a else b) = c) : ¬ p ∧ b = c := by
  by_cases hp : p
  · rw [if_pos hp] at h
    exact absurd h hne
  · rw [if_neg hp] at h
    exact ⟨hp, h⟩

theorem batchOrigin_ne_accept (epoch : L1BlockRef) (rest : List L1BlockRef) (batch : BatchData) :
    batchOrigin epoch rest batch ≠ .error .accept := by
  unfold batchOrigin
  split
  · decide
  · split
    · simp
    · split
      · cases rest with
        | nil => decide
        | cons => simp
      · decide

variable {batch : BatchData}

theorem checkBatch_accept {cfg : Config} {l1Blocks : List L1BlockRef} {l2SafeHead : L2BlockRef}
    {l1InclusionBlock : L1BlockRef}
    (h : checkBatch cfg l1Blocks l2SafeHead l1InclusionBlock batch = .accept) :
    ∃ epoch rest origin, l1Blocks = epoch :: rest ∧ epoch.hash = l2SafeHead.l1Origin.hash ∧
      batch.timestamp = l2SafeHead.time + cfg.blockTime ∧ batch.parentHash = l2SafeHead.hash ∧
      l1InclusionBlock.number ≤ batch.epochNum + cfg.seqWindowSize ∧
      batchOrigin epoch rest batch = .ok origin ∧ batch.epochHash = origin.hash ∧
      batch.timestamp ≤ origin.time + cfg.maxSequencerDrift ∧
      SequencerTxs batch.transactions := by
  unfold checkBatch at h
  cases l1Blocks with
  | nil => cases h
  | cons epoch rest =>
    obtain ⟨hepoch, h⟩ := of_ite_eq (by decide) h
    obtain ⟨hfuture, h⟩ := of_ite_eq (by decide) h
    obtain ⟨hold, h⟩ := of_ite_eq (by decide) h
    obtain ⟨hparent, h⟩ := of_ite_eq (by decide) h
    obtain ⟨hlate, h⟩ := of_ite_eq (by decide) h
    cases horigin : batchOrigin epoch rest batch with
    | error validity =>
      rw [horigin] at h
      have hvalidity : validity = .accept := h
      exact absurd (hvalidity ▸ horigin) (batchOrigin_ne_accept epoch rest batch)
    | ok origin =>
      rw [horigin] at h
      obtain ⟨hhash, h⟩ := of_ite_eq (by decide) h
      obtain ⟨hdrift, h⟩ := of_ite_eq (by decide) h
      obtain ⟨htxs, -⟩ := of_ite_eq (by decide) h
      refine ⟨epoch, rest, origin, rfl, not_not.mp hepoch,
        BitVec.le_antisymm (BitVec.not_lt.mp hfuture) (BitVec.not_lt.mp hold),
        not_not.mp hparent, BitVec.not_lt.mp hlate, horigin, not_not.mp hhash,
        BitVec.not_lt.mp hdrift, ?_⟩
      intro tx htx
      rw [Bool.not_eq_true, List.any_eq_false] at htxs
      simpa using htxs tx htx

section Shape

variable (keccak : Bytes → Hash) (codec : TxCodec) (cfg : Config)

/-- The sequence number and the user deposits of the block after `parent` in the epoch of
`origin`. -/
@[mk_iff]
inductive Epoch (parent : L2BlockRef) (origin : L1Block) : Uint64 → List Bytes → Prop
  | first {deposits : List Bytes} (hparent : origin.info.parentHash = parent.l1Origin.hash)
      (hdeposits : List.Forall₂ (DepositOf keccak codec)
        (depositLogs origin.receipts cfg.depositContractAddress) deposits) :
      Epoch parent origin 0 deposits
  | later (hsame : origin.info.hash = parent.l1Origin.hash) :
      Epoch parent origin (parent.sequenceNumber + 1) []

/-- The transactions of the block after `parent`: the attributes of its L1 origin, the user
deposits, and the sequencer's. -/
structure Carries (l1 : L1Chain) (parent : L2BlockRef) (origin : L1Block) (seqNumber : Uint64)
    (deposits txs : List Bytes) : Prop where
  known : l1.block origin.info.hash = some origin
  epoch : Epoch keccak codec cfg parent origin seqNumber deposits
  txs_eq : ∃ l1InfoTx rest, l1InfoDepositBytes keccak codec seqNumber origin.info = .ok l1InfoTx ∧
    txs = l1InfoTx :: (deposits ++ rest) ∧ SequencerTxs rest

end Shape

variable {keccak : Bytes → Hash} {codec : TxCodec} {cfg : Config} {dl : L1Answers}
  {l1 : L1Chain} {parent : L2BlockRef} {epoch : BlockID}

variable {deposits : List Bytes} {seqNumber : Uint64} {info : BlockInfo}

variable (hl1 : dl.From l1)
include hl1

theorem openEpoch_eq_ok
    (h : openEpoch keccak codec cfg dl parent epoch = .ok (info, deposits, seqNumber)) :
    ∃ origin, l1.block epoch.hash = some origin ∧ origin.info = info ∧
      Epoch keccak codec cfg parent origin seqNumber deposits := by
  unfold openEpoch at h
  split at h
  next => cases h
  next fetched answer hfetch =>
    split at h
    next => cases h
    next hparent =>
      split at h
      next => cases h
      next => cases h
      next receipts =>
        split at h
        next txs hdeposits =>
          cases h
          exact ⟨_, hl1.fetch hfetch, rfl,
            .first (not_not.mp hparent).symm (deriveDeposits_spec hdeposits)⟩
        next => cases h

theorem stayInEpoch_eq_ok (h : stayInEpoch dl parent epoch = .ok (info, deposits, seqNumber)) :
    ∃ origin, l1.block epoch.hash = some origin ∧ origin.info = info ∧
      Epoch keccak codec cfg parent origin seqNumber deposits := by
  unfold stayInEpoch at h
  split at h
  next => cases h
  next hsame =>
    split at h
    next => cases h
    next fetched hinfo =>
      cases h
      obtain ⟨receipts, hblock⟩ := hl1.infoByHash hinfo
      refine ⟨_, hblock, rfl, .later ?_⟩
      rw [l1.hash_eq hblock]
      exact (not_not.mp hsame).symm

theorem epochData_eq_ok
    (h : epochData keccak codec cfg dl parent epoch = .ok (info, deposits, seqNumber)) :
    ∃ origin, l1.block epoch.hash = some origin ∧ origin.info = info ∧
      Epoch keccak codec cfg parent origin seqNumber deposits := by
  unfold epochData at h
  split at h
  next => exact openEpoch_eq_ok hl1 h
  next => exact stayInEpoch_eq_ok hl1 h

variable {attrs : PayloadAttributes}

theorem preparePayloadAttributes_eq_ok {timestamp : Uint64}
    (h : preparePayloadAttributes keccak codec cfg dl parent timestamp epoch = .ok attrs) :
    ∃ origin seqNumber deposits l1InfoTx, l1.block epoch.hash = some origin ∧
      Epoch keccak codec cfg parent origin seqNumber deposits ∧
      l1InfoDepositBytes keccak codec seqNumber origin.info = .ok l1InfoTx ∧
      attrs.timestamp = timestamp ∧ attrs.transactions = l1InfoTx :: deposits := by
  simp only [preparePayloadAttributes, bind_eq_ok] at h
  obtain ⟨⟨info, deposits, seqNumber⟩, hepoch, h⟩ := h
  obtain ⟨origin, hblock, rfl, hplace⟩ := epochData_eq_ok hl1 hepoch
  cases hinfo : l1InfoDepositBytes keccak codec seqNumber origin.info with
  | error =>
    rw [hinfo] at h
    cases h
  | ok l1InfoTx =>
    rw [hinfo] at h
    cases h
    exact ⟨origin, seqNumber, deposits, l1InfoTx, hblock, hplace, hinfo, rfl, rfl⟩

theorem createNextAttributes_carries (hbatch : SequencerTxs batch.transactions)
    (h : createNextAttributes keccak codec cfg dl batch parent = .ok attrs) :
    attrs.noTxPool = true ∧ ∃ origin seqNumber deposits,
      Carries keccak codec cfg l1 parent origin seqNumber deposits attrs.transactions := by
  unfold createNextAttributes at h
  obtain ⟨-, h⟩ := of_ite_eq (by simp) h
  simp only [bind_eq_ok, pure_eq_ok] at h
  obtain ⟨prepared, hprepared, rfl⟩ := h
  obtain ⟨origin, seqNumber, deposits, l1InfoTx, hblock, hplace, hinfo, -, htxs⟩ :=
    preparePayloadAttributes_eq_ok hl1 hprepared
  refine ⟨rfl, origin, seqNumber, deposits, ?_, hplace, l1InfoTx, batch.transactions, hinfo, ?_,
    hbatch⟩
  · rw [l1.hash_eq hblock, hblock]
  · rw [htxs, List.cons_append]

omit hl1 in
theorem nextAttributes_cases {prev : Except Error BatchData} {kept : Option BatchData}
    {p : BatchData → Prop} (hkept : ∀ batch, kept = some batch → p batch)
    (hprev : ∀ batch, prev = .ok batch → p batch) {left : Option BatchData}
    {result : Except Error PayloadAttributes}
    (h : nextAttributes keccak codec cfg dl prev kept parent = (left, result)) :
    (∀ batch, left = some batch → p batch) ∧ ∀ attrs, result = .ok attrs →
      ∃ batch, p batch ∧ createNextAttributes keccak codec cfg dl batch parent = .ok attrs := by
  unfold nextAttributes at h
  split at h
  next err hbatch =>
    cases h
    simp
  next batch hbatch =>
    have hp : p batch := by
      cases kept with
      | none => exact hprev batch hbatch
      | some =>
        cases hbatch
        exact hkept batch rfl
    split at h
    next err hcreate =>
      cases h
      simpa using hp
    next attrs hcreate =>
      cases h
      refine ⟨by simp, ?_⟩
      intro made hmade
      cases hmade
      exact ⟨batch, hp, hcreate⟩

end Derive
