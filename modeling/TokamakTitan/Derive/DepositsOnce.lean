import TokamakTitan.Derive.DepositCodec
import TokamakTitan.Derive.Inclusion
import TokamakTitan.Derive.Reset

/-! Deposits are included exactly once along the runs of the attributes and engine queues, resets
included, as long as no attributes wait when a reset moves the safe head. -/
namespace Derive

section Runs

variable (keccak : Bytes → Hash) (codec : TxCodec) (cfg : Config) (l1 : L1Chain)

/-- The stages, and the safe blocks since the head `base`. -/
structure Derivation where
  base : L2BlockRef
  stages : Stages
  safeBlocks : List SafeBlock

/-- A run starts with whatever the stages hold. -/
def Derivation.start (stages : Stages) : Derivation where
  base := stages.queue.safeHead
  stages
  safeBlocks := []

def Derivation.onQueue (s : Derivation) (f : EngineQueue → EngineQueue) : Derivation :=
  { s with stages := { s.stages with queue := f s.stages.queue } }

def recordSafe (eq : EngineQueue) (blocks : List SafeBlock) (out : Outcome) : List SafeBlock :=
  blocks ++ out.promoted.toList.map fun payload =>
    { parent := eq.safeHead, payload, ref := out.queue.safeHead }

def Derivation.step (inputs : StepInputs) (s : Derivation) : Derivation :=
  let next := s.stages.step keccak codec cfg inputs
  { s with
    stages := { batch := next.1, queue := next.2.queue }
    safeBlocks := recordSafe s.stages.queue s.safeBlocks next.2 }

/-- The recorded chain ends at the new safe head, or starts there if that is none of its heads. -/
def Derivation.rewind (queue : EngineQueue) (s : Derivation) : Derivation :=
  match (safeHeads s.base s.safeBlocks).findIdx? (· = queue.safeHead) with
  | some k =>
    { s with stages := { s.stages with queue }, safeBlocks := s.safeBlocks.take k }
  | none =>
    { base := queue.safeHead, stages := { s.stages with queue }, safeBlocks := [] }

/-- The reset that follows a reset error. The kept batch and the waiting attributes stay. -/
def Derivation.reset (answers : ResetAnswers) (s : Derivation) : Derivation :=
  match s.stages.queue.resetStep cfg answers with
  | (_, .error _) => s
  | (queue, .ok _) => s.rewind queue

/-- A step of the pipeline, a reset of it, or a call from outside: a new unsafe head, unsafe
payloads that arrive, or a finality signal. -/
inductive Derivation.Event where
  | step (inputs : StepInputs)
  | reset (answers : ResetAnswers)
  | setUnsafeHead (head : L2BlockRef)
  | addUnsafePayload (payloads : List ExecutionPayload)
  | finalize (l1Origin : BlockID)

def Derivation.next (s : Derivation) : Derivation.Event → Derivation
  | .step inputs => s.step keccak codec cfg inputs
  | .reset answers => s.reset cfg answers
  | .setUnsafeHead head => s.onQueue fun eq => eq.setUnsafeHead head
  | .addUnsafePayload payloads => s.onQueue fun eq => { eq with unsafePayloads := payloads }
  | .finalize l1Origin => s.onQueue fun eq => eq.finalize l1Origin

/-- The L1 node answers about the chain, the batch queue returns accepted batches or empty ones, and
the engine builds what it is asked for. -/
structure Admissible (safeHead : L2BlockRef) (inputs : StepInputs) : Prop where
  dl : inputs.dl.From l1
  prev : ∀ batch, inputs.prev.nextBatch = .ok batch → batch.transactions = [] ∨
    ∃ l1Blocks l1InclusionBlock, checkBatch cfg l1Blocks safeHead l1InclusionBlock batch = .accept
  eng : inputs.eng.Exact cfg.genesis

def Derivation.Event.Admissible (s : Derivation) : Derivation.Event → Prop
  | .step inputs => Derive.Admissible cfg l1 s.stages.queue.safeHead inputs
  | _ => True

/-- No attributes wait when a reset moves the safe head. -/
def Derivation.Event.Settled (s : Derivation) : Derivation.Event → Prop
  | .reset answers => s.stages.queue.safeAttributes = [] ∨
      (s.reset cfg answers).stages.queue.safeHead = s.stages.queue.safeHead
  | _ => True

def Derivation.Step (s t : Derivation) : Prop :=
  ∃ event, event.Admissible cfg l1 s ∧ t = s.next keccak codec cfg event

def Derivation.SettledStep (s t : Derivation) : Prop :=
  ∃ event, event.Admissible cfg l1 s ∧ event.Settled cfg s ∧
    t = s.next keccak codec cfg event

/-- The attributes that wait, if any, are made for the safe head. -/
def Pending (queue : EngineQueue) : Prop :=
  queue.safeAttributes = [] ∨ ∃ attrs, queue.safeAttributes = [attrs] ∧ attrs.noTxPool = true ∧
    ∃ origin seqNumber deposits,
      Carries keccak codec cfg l1 queue.safeHead origin seqNumber deposits attrs.transactions

/-- The recorded blocks fit together, the waiting attributes fit on top of them, and the kept batch
has no deposits. -/
structure Derivation.Inv (s : Derivation) : Prop where
  derived : Derived keccak codec cfg l1 s.base s.safeBlocks s.stages.queue.safeHead
  pending : Pending keccak codec cfg l1 s.stages.queue
  kept : ∀ batch, s.stages.batch = some batch → SequencerTxs batch.transactions

end Runs

section Steps

variable {keccak : Bytes → Hash} {codec : TxCodec} {cfg : Config} {l1 : L1Chain}
  {start : L2BlockRef} {s : Derivation} {inputs : StepInputs}

theorem Admissible.sequencerTxs {safeHead : L2BlockRef} (h : Admissible cfg l1 safeHead inputs)
    (batch : BatchData) (hbatch : inputs.prev.nextBatch = .ok batch) :
    SequencerTxs batch.transactions := by
  rcases h.prev batch hbatch with hempty | ⟨l1Blocks, l1InclusionBlock, haccept⟩
  · intro tx htx
    rw [hempty] at htx
    cases htx
  · obtain ⟨epoch, rest, origin, -, -, -, -, -, -, -, -, htxs⟩ := checkBatch_accept haccept
    exact htxs

variable {eng : EngineAnswers} {out : Outcome}

theorem SafeEffect.keeps {eq : EngineQueue} {blocks : List SafeBlock}
    (hexact : eng.Exact cfg.genesis) (heffect : SafeEffect codec cfg eng eq out)
    (hderived : Derived keccak codec cfg l1 start blocks eq.safeHead)
    (hpending : Pending keccak codec cfg l1 eq) :
    Derived keccak codec cfg l1 start (recordSafe eq blocks out) out.queue.safeHead ∧
      Pending keccak codec cfg l1 out.queue := by
  unfold Pending at hpending ⊢
  cases heffect with
  | idle hhead hattrs hnone =>
    rw [recordSafe, hnone, hhead, hattrs]
    simpa using ⟨hderived, hpending⟩
  | stripped hold _ _ hhead hattrs hnone =>
    rw [recordSafe, hnone, hhead, hattrs]
    rw [hold] at hpending
    rcases hpending with hnil | ⟨attrs, hattrs, hpool, origin, seqNumber, deposits, hcarries⟩
    · cases hnil
    · cases hattrs
      refine ⟨by simpa using hderived, .inr ⟨_, rfl, hpool, origin, seqNumber, deposits, ?_⟩⟩
      exact hcarries.strip
  | @promoted attrs rest payload hold hattrs hsource href hsome =>
    rw [hold] at hpending
    rcases hpending with hnil | ⟨attrs, hattrs', hpool, origin, seqNumber, deposits, hcarries⟩
    · cases hnil
    · cases hattrs'
      rw [← hsource.transactions_eq hexact hpool] at hcarries
      have hfits := fits_of_carries hcarries (hsource.not_genesis hexact hcarries.ne_nil) href
      rw [recordSafe, hsome]
      exact ⟨.snoc hderived hfits, .inl hattrs⟩

variable (h : s.Inv keccak codec cfg l1)
include h

theorem Derivation.Inv.of_effect {batch : Option BatchData} (hexact : eng.Exact cfg.genesis)
    (heffect : SafeEffect codec cfg eng s.stages.queue out)
    (hkept : ∀ b, batch = some b → SequencerTxs b.transactions) :
    Derivation.Inv keccak codec cfg l1
      { s with
        stages := { batch, queue := out.queue }
        safeBlocks := recordSafe s.stages.queue s.safeBlocks out } := by
  obtain ⟨hderived, hpending⟩ := heffect.keeps hexact h.derived h.pending
  exact ⟨hderived, hpending, hkept⟩

theorem Derivation.Inv.step (hinputs : Admissible cfg l1 s.stages.queue.safeHead inputs) :
    (s.step keccak codec cfg inputs).Inv keccak codec cfg l1 := by
  rcases hasked : nextAttributes keccak codec cfg inputs.dl inputs.prev.nextBatch
    s.stages.batch s.stages.queue.safeHead with ⟨left, answer⟩
  obtain ⟨hkept, hmade⟩ := nextAttributes_cases h.kept hinputs.sequencerTxs hasked
  have hbatch : ∀ b, (if s.stages.queue.safeAttributes ≠ [] then s.stages.batch else left) =
      some b → SequencerTxs b.transactions := by
    split
    next => exact h.kept
    next => exact hkept
  unfold Derivation.step
  rw [Stages.step_eq hasked]
  rcases s.stages.queue.step_cases with ⟨attrs, hattrs, -, hout⟩ | heffect
  · obtain ⟨used, htxs, hcreate⟩ := hmade attrs hattrs
    obtain ⟨hpool, hcarries⟩ := createNextAttributes_carries hinputs.dl htxs hcreate
    dsimp only
    rw [hout]
    refine ⟨?_, .inr ⟨attrs, rfl, hpool, hcarries⟩, hbatch⟩
    simpa [recordSafe, EngineQueue.stop] using h.derived
  · exact h.of_effect hinputs.eng heffect hbatch

theorem Derivation.Inv.onQueue {f : EngineQueue → EngineQueue}
    (hhead : (f s.stages.queue).safeHead = s.stages.queue.safeHead)
    (hattrs : (f s.stages.queue).safeAttributes = s.stages.queue.safeAttributes) :
    (s.onQueue f).Inv keccak codec cfg l1 := by
  refine ⟨?_, ?_, h.kept⟩
  · show Derived keccak codec cfg l1 s.base s.safeBlocks (f s.stages.queue).safeHead
    rw [hhead]
    exact h.derived
  · show Pending keccak codec cfg l1 (f s.stages.queue)
    rw [Pending, hhead, hattrs]
    exact h.pending

theorem Derivation.Inv.rewind {queue : EngineQueue} (hpending : Pending keccak codec cfg l1 queue) :
    (s.rewind queue).Inv keccak codec cfg l1 := by
  unfold Derivation.rewind
  split
  next k hk =>
    obtain ⟨hlt, hhead, -⟩ := List.findIdx?_eq_some_iff_getElem.mp hk
    refine ⟨h.derived.take ?_, hpending, h.kept⟩
    rw [List.getElem?_eq_getElem hlt, of_decide_eq_true hhead]
  next => exact ⟨.nil, hpending, h.kept⟩

theorem Derivation.Inv.reset {answers : ResetAnswers}
    (hsettled : (Derivation.Event.reset answers).Settled cfg s) :
    (s.reset cfg answers).Inv keccak codec cfg l1 := by
  simp only [Derivation.Event.Settled] at hsettled
  unfold Derivation.reset EngineQueue.resetStep at hsettled ⊢
  cases hpoint : EngineQueue.resetPoint cfg answers with
  | error => exact h
  | ok point =>
    rw [hpoint] at hsettled
    apply h.rewind
    rcases hsettled with hattrs | hhead
    · exact .inl hattrs
    · have hsafe : (s.stages.queue.setHeads point.1).safeHead = s.stages.queue.safeHead := by
        rw [← hhead]
        dsimp only
        unfold Derivation.rewind
        split <;> rfl
      rw [Pending, hsafe]
      exact h.pending

theorem Derivation.Inv.next {t : Derivation} (hstep : s.SettledStep keccak codec cfg l1 t) :
    t.Inv keccak codec cfg l1 := by
  obtain ⟨event, hadmissible, hsettled, rfl⟩ := hstep
  unfold Derivation.next
  cases event with
  | step => exact h.step hadmissible
  | reset => exact h.reset hsettled
  | setUnsafeHead => exact h.onQueue rfl rfl
  | addUnsafePayload => exact h.onQueue rfl rfl
  | finalize => exact h.onQueue (by simp) (by simp)

omit h in
/-- Along every run that starts without waiting attributes and resets only where none wait, or to
the same safe head: the first safe block of an L1 origin carries the deposits of the L1 block, the
others carry none, and the deposits of the safe chain are those of the L1 blocks between the first
and the last L1 origin, each once. -/
theorem deposits_included_once {stages : Stages} (hattrs : stages.queue.safeAttributes = [])
    (hkept : ∀ batch, stages.batch = some batch → SequencerTxs batch.transactions)
    (hrun : Relation.ReflTransGen (Derivation.SettledStep keccak codec cfg l1)
      (Derivation.start stages) s) :
    Linked s.base s.safeBlocks s.stages.queue.safeHead ∧
    (∀ before block after, s.safeBlocks = before ++ block :: after →
      ∃ origin, Included keccak codec cfg l1 s.base before block origin) ∧
    ∃ origins, l1.Path s.base.l1Origin.hash origins s.stages.queue.safeHead.l1Origin.hash ∧
      (L1Chain.hashes s.base.l1Origin.hash origins).Nodup ∧
      List.Forall₂ (DepositOf keccak codec)
        (origins.flatMap fun origin => depositLogs origin.receipts cfg.depositContractAddress)
        (s.safeBlocks.flatMap SafeBlock.userDeposits) := by
  have hinv : s.Inv keccak codec cfg l1 := by
    induction hrun with
    | refl => exact ⟨.nil, .inl hattrs, hkept⟩
    | tail _ hstep ih => exact ih.next hstep
  obtain ⟨origins, haccounted⟩ := hinv.derived.accounted
  refine ⟨hinv.derived.linked, ?_, origins, haccounted.path, haccounted.path.nodup,
    haccounted.deposits⟩
  intro before block after hsplit
  exact hinv.derived.included hsplit

end Steps

def L1Chain.answers (l1 : L1Chain) : L1Answers where
  fetch h := match l1.block h with
    | none => .error "not found"
    | some b => .ok (b.info, .receipts b.receipts)
  infoByHash h := match l1.block h with
    | none => .error "not found"
    | some b => .ok b.info

theorem L1Chain.from_answers (l1 : L1Chain) : l1.answers.From l1 := by
  constructor
  · intro h info receipts hfetch
    unfold answers at hfetch
    dsimp only at hfetch
    split at hfetch
    next => cases hfetch
    next b hb =>
      cases hfetch
      exact hb
  · intro h info hinfo
    unfold answers at hinfo
    dsimp only at hinfo
    split at hinfo
    next => cases hinfo
    next b hb =>
      cases hinfo
      exact ⟨b.receipts, hb⟩

/-- The block on `parent` that an engine builds for the attributes. -/
def PayloadAttributes.block (attrs : PayloadAttributes) (parent : L2BlockRef) (hash : Hash) :
    ExecutionPayload :=
  ⟨parent.hash, attrs.suggestedFeeRecipient, attrs.prevRandao, parent.number + 1, 30000000,
    attrs.timestamp, [], hash, attrs.transactions⟩

/-- An engine that builds `payload` for the attributes that it starts on. -/
def engineFor (starts : ForkchoiceState → PayloadAttributes → Bool) (payload : ExecutionPayload)
    (status : ExecutionPayload → ExecutePayloadStatus)
    (known : Except QueryError ExecutionPayload) : EngineAnswers where
  forkchoiceUpdate fc requested :=
    if requested.all (starts fc) then .ok ⟨.valid, requested.map fun _ => 1⟩
    else .error (.rpc "busy")
  getPayload _ := .ok payload
  newPayload executed := .ok (status executed)
  payloadByNumber _ := known

theorem engineFor_starts {starts : ForkchoiceState → PayloadAttributes → Bool}
    {payload : ExecutionPayload} {status : ExecutionPayload → ExecutePayloadStatus}
    {known : Except QueryError ExecutionPayload} {fc : ForkchoiceState} {attrs : PayloadAttributes}
    {fcRes : ForkchoiceUpdatedResult}
    (h : (engineFor starts payload status known).forkchoiceUpdate fc (some attrs) = .ok fcRes) :
    starts fc attrs = true ∧ fcRes = ⟨.valid, some 1⟩ := by
  unfold engineFor at h
  dsimp only at h
  split at h
  next hstarts => exact ⟨hstarts, (Except.ok.inj h).symm⟩
  next => cases h

def builder (head : L2BlockRef) (attrs : PayloadAttributes) (hash : Hash)
    (status : ExecutePayloadStatus) : EngineAnswers :=
  engineFor (fun _ requested => requested = attrs) (attrs.block head hash) (fun _ => status)
    (.ok (attrs.block head hash))

theorem exact_builder {head : L2BlockRef} {attrs : PayloadAttributes} {hash : Hash}
    {status : ExecutePayloadStatus} {genesis : Genesis} (hhash : hash ≠ genesis.l2.hash) :
    (builder head attrs hash status).Exact genesis := by
  refine ⟨?_, ?_, ?_⟩
  · intro fc requested fcRes id payload hstart hid hget _
    rw [of_decide_eq_true (engineFor_starts hstart).1]
    cases hget
    rfl
  · intro id payload hget hgenesis
    cases hget
    exact absurd hgenesis hhash
  · intro number payload hget hgenesis
    cases hget
    exact absurd hgenesis hhash

def epochKeccak256 (b : Bytes) : Hash :=
  let l1Hash := hashBytes 0xb1
  let index0 := 0x251c035367d261dff4c2c6306f23c24cd6a64dbe9598388376ea7aaabda9ab80
  let index1 := 0x7ff6d99ecf17df3f1097d877fba82682b40f191db7daded98d658129a21865e6
  let table : List (Bytes × Hash) :=
    [(l1Hash ++ uint64Word 0, index0), (l1Hash ++ uint64Word 1, index1),
      (uint64Word 0 ++ hashBytes index0,
        0x6e94ec949e5f1b1f0d872c8de6f57c0da5ce382d7fc3d8e9b6b83540749a6f0f),
      (uint64Word 1 ++ hashBytes index0,
        0x96f6185b6aba059fd9fbd7f155b409a41b1234c07abe308c9074928550b55f14),
      (uint64Word 1 ++ hashBytes index1,
        0x233e6bbb9d83b2105a54e749c12e7e976070eb8b8dabd599f6f28453f0f46c25)]
  (table.lookup b).getD 0

def epochLog : Log where
  address := 0x6900000000000000000000000000000000000001
  topics := [depositEventABIHash, 0x71, 0x72, 0]
  data := BigEndian.encode 32 32 ++ BigEndian.encode 32 73 ++ BigEndian.encode 32 5 ++
    BigEndian.encode 32 5 ++ BigEndian.encode 8 21000 ++ [0] ++ List.replicate 23 0
  blockHash := 0xb1
  index := 0

def epochBlocks : List L1Block :=
  [⟨⟨0xa1, 0xa0, 100, 1000, 1, 7⟩, []⟩,
    { info := ⟨0xb1, 0xa1, 101, 1012, 2, 8⟩
      receipts := [{ status := 1, logs := [epochLog] }, { status := 0, logs := [epochLog] }] }]

def epochL1 : L1Chain := .ofBlocks epochBlocks (by decide)

def epochBatch (parentHash : Hash) (timestamp : Uint64) (transactions : List Bytes) :
    BatchData where
  parentHash
  epochNum := 101
  epochHash := 0xb1
  timestamp
  transactions

def epochHead : L2BlockRef := ⟨0xc1, 50, 0xbf, 1010, ⟨0xa1, 100⟩, 4⟩

def epochQueue : EngineQueue where
  finalized := epochHead
  safeHead := epochHead
  unsafeHead := epochHead
  finalizedL1 := ⟨0, 0⟩
  safeAttributes := []
  unsafePayloads := []
  finalityData := []

def idleAttributes : PayloadAttributes where
  timestamp := 0
  prevRandao := 0
  suggestedFeeRecipient := 0
  transactions := []
  noTxPool := true

def epochInputs (batch : BatchData) (hash : Hash) (status : ExecutePayloadStatus)
    (s : Derivation) : StepInputs where
  prev :=
    { nextBatch := .ok batch
      origin := ⟨0xb2, 102, 0xb1, 1024⟩ }
  dl := epochL1.answers
  eng := builder s.stages.queue.safeHead (s.stages.queue.safeAttributes.headD idleAttributes) hash
    status

def epochStep (batch : BatchData) (hash : Hash) (status : ExecutePayloadStatus)
    (s : Derivation) : Derivation :=
  s.step epochKeccak256 depositCodec devnetConfig (epochInputs batch hash status s)

/-- The engine has nothing above the head of the example. -/
def epochReset : ResetAnswers where
  l1 number :=
    match epochBlocks.find? fun b => b.info.number = number with
    | some b => .ok (b.info.ref)
    | none => if number = 0 then .ok { L1BlockRef.zero with hash := 0x90 } else .error .notFound
  l1ByHash h :=
    match epochL1.block h with
    | some b => .ok (b.info.ref)
    | none => .error .notFound
  l2 := { byHash := fun _ => .error .notFound, byLabel := fun _ => .ok epochHead }

def epochStart : Derivation := .start { batch := none, queue := epochQueue }

def epochFirst : Derivation :=
  let batch := epochBatch 0xc1 1012 [[0x02, 0x2a]]
  epochStep batch 0xc2 .valid (epochStep batch 0xc2 .invalid (epochStep batch 0xc2 .valid
    epochStart))

def epochAgain : Derivation :=
  let batch := epochBatch 0xc1 1012 []
  epochStep batch 0xc2 .valid (epochStep batch 0xc2 .valid
    (epochFirst.reset devnetConfig epochReset))

def epochRun : Derivation :=
  let batch := epochBatch 0xc2 1014 []
  epochStep batch 0xc3 .valid (epochStep batch 0xc3 .valid
    (epochAgain.onQueue fun eq => eq.setUnsafeHead { epochHead with number := 60 }))

abbrev EpochStep : Derivation → Derivation → Prop :=
  Derivation.Step epochKeccak256 depositCodec devnetConfig epochL1

abbrev EpochSettled : Derivation → Derivation → Prop :=
  Derivation.SettledStep epochKeccak256 depositCodec devnetConfig epochL1

theorem settled_epochStep {batch : BatchData} {hash : Hash} {status : ExecutePayloadStatus}
    (s : Derivation) (hhash : hash ≠ devnetConfig.genesis.l2.hash)
    (hbatch : batch.transactions = [] ∨ checkBatch devnetConfig
      (epochBlocks.map fun b => b.info.ref) s.stages.queue.safeHead
      ⟨0xb2, 102, 0xb1, 1024⟩ batch = .accept) :
    EpochSettled s (epochStep batch hash status s) := by
  refine ⟨.step (epochInputs batch hash status s), ⟨epochL1.from_answers, ?_, exact_builder hhash⟩,
    trivial, rfl⟩
  intro offered hoffered
  cases hoffered
  rcases hbatch with hempty | haccept
  · exact .inl hempty
  · exact .inr ⟨_, _, haccept⟩

theorem run_epochFirst : Relation.ReflTransGen EpochSettled epochStart epochFirst :=
  ((Relation.ReflTransGen.refl.tail
    (settled_epochStep _ (by decide) (.inr (by decide +kernel)))).tail
    (settled_epochStep _ (by decide) (.inr (by decide +kernel)))).tail
    (settled_epochStep _ (by decide) (.inr (by decide +kernel)))

theorem run_epochRun : Relation.ReflTransGen EpochSettled epochStart epochRun := by
  have hagain : Relation.ReflTransGen EpochSettled epochStart epochAgain :=
    ((run_epochFirst.tail ⟨.reset epochReset, trivial, .inl (by decide +kernel), rfl⟩).tail
      (settled_epochStep _ (by decide) (.inl rfl))).tail
      (settled_epochStep _ (by decide) (.inl rfl))
  exact ((hagain.tail ⟨.setUnsafeHead _, trivial, trivial, rfl⟩).tail
    (settled_epochStep _ (by decide) (.inl rfl))).tail
    (settled_epochStep _ (by decide) (.inl rfl))

/-- The run resets after its first block and derives the block again. -/
theorem deposits_included_once_reset :
    epochFirst.safeBlocks.length = 1 ∧
    (epochFirst.reset devnetConfig epochReset).safeBlocks.length = 0 ∧
    epochRun.safeBlocks.map (fun block => (block.ref.l1Origin.number, block.ref.sequenceNumber,
      block.payload.transactions.length, block.userDeposits.length)) =
      [(101, 0, 2, 1), (101, 1, 1, 0)] ∧
    ∃ origins, epochL1.Path epochRun.base.l1Origin.hash origins
        epochRun.stages.queue.safeHead.l1Origin.hash ∧
      (L1Chain.hashes epochRun.base.l1Origin.hash origins).Nodup ∧
      List.Forall₂ (DepositOf epochKeccak256 depositCodec) (origins.flatMap fun origin =>
          depositLogs origin.receipts devnetConfig.depositContractAddress)
        (epochRun.safeBlocks.flatMap SafeBlock.userDeposits) :=
  ⟨by decide +kernel, by decide +kernel, by decide +kernel,
    (deposits_included_once rfl (by simp) run_epochRun).2.2⟩

def lostPending : Derivation := epochStep (epochBatch 0xc2 1014 []) 0xc3 .valid epochFirst

/-- The engine does not know the head that the attributes are for. -/
def refusal : StepInputs :=
  { epochInputs (epochBatch 0xc2 1014 []) 0xc3 .valid lostPending with
    eng :=
      { forkchoiceUpdate := fun _ _ => .error (.input invalidForkchoiceState "unknown head")
        getPayload := fun _ => .error (.rpc "unknown payload")
        newPayload := fun _ => .ok .syncing
        payloadByNumber := fun _ => .error .notFound } }

def lostReset : Derivation :=
  (lostPending.step epochKeccak256 depositCodec devnetConfig refusal).reset devnetConfig epochReset

def lostRun : Derivation := epochStep (epochBatch 0xc1 1012 []) 0xc4 .valid lostReset

theorem run_lostRun : Relation.ReflTransGen EpochStep epochStart lostRun := by
  have hstep : ∀ {s t : Derivation}, EpochSettled s t → EpochStep s t := by
    rintro s t ⟨event, hadmissible, -, hnext⟩
    exact ⟨event, hadmissible, hnext⟩
  have hrefusal : Admissible devnetConfig epochL1 lostPending.stages.queue.safeHead refusal := by
    refine ⟨epochL1.from_answers, ?_, ?_, ?_, ?_⟩
    · intro offered hoffered
      cases hoffered
      exact .inl rfl
    · intro fc attrs fcRes id payload hstart
      cases hstart
    · intro id payload hget
      cases hget
    · intro number payload hget
      cases hget
  have hfirst := Relation.ReflTransGen.mono (fun _ _ => hstep) _ _ run_epochFirst
  exact (((hfirst.tail (hstep (settled_epochStep _ (by decide) (.inl rfl)))).tail
    ⟨.step refusal, hrefusal, rfl⟩).tail ⟨.reset epochReset, trivial, rfl⟩).tail
    (hstep (settled_epochStep _ (by decide) (.inl rfl)))

/-- The attributes of the second block of an L1 origin outlive the reset to the block before the
first one. The L1 origin is opened without its deposit. -/
theorem deposit_lost :
    Relation.ReflTransGen EpochStep epochStart lostRun ∧
    (lostPending.stages.step epochKeccak256 depositCodec devnetConfig refusal).2.result =
      .error (.reset ("need reset to resolve pre-state problem: pre-block-creation forkchoice " ++
        "update was inconsistent with engine, need reset to resolve: unknown head")) ∧
    lostRun.safeBlocks.map (fun block => (block.ref.l1Origin, block.ref.sequenceNumber,
      block.userDeposits.length)) = [(⟨0xb1, 101⟩, 1, 0)] ∧
    ¬ ∀ before block after, lostRun.safeBlocks = before ++ block :: after →
      ∃ origin, Included epochKeccak256 depositCodec devnetConfig epochL1 lostRun.base before
        block origin := by
  have hblocks : lostRun.safeBlocks.map (fun block => (block.ref.l1Origin,
      block.ref.sequenceNumber, block.userDeposits.length)) =
      [(⟨0xb1, 101⟩, 1, 0)] := by
    decide +kernel
  refine ⟨run_lostRun, by decide +kernel, hblocks, ?_⟩
  intro hincluded
  obtain ⟨block, hblock, hseen⟩ := List.map_eq_singleton_iff.mp hblocks
  simp only [Prod.mk.injEq] at hseen
  obtain ⟨origin, h⟩ := hincluded [] block [] hblock
  have hopens : OpensEpoch lostRun.base [] block := by
    intro ref href
    rw [safeHeads, List.map_nil, List.mem_singleton] at href
    rw [href, hseen.1]
    decide +kernel
  have hseq := hseen.2.1.symm.trans (h.first hopens).1
  exact absurd hseq (by decide)

end Derive
