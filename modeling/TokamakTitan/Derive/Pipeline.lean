import TokamakTitan.Derive.BatchQueue
import TokamakTitan.Derive.DepositsOnce
import TokamakTitan.Derive.EngineCalls
import TokamakTitan.Derive.L1Stages

/-! The derivation pipeline: its stages, their steps and resets, and what a reset leaves of the
state before it. -/
namespace Derive

structure PipelineAnswers where
  reset : ResetAnswers
  txs : TxsAnswers
  dl : L1Answers
  eng : EngineAnswers

/-- `progress` is the L1 block that the stages are reset to, and the two indices count the stages
that are reset. -/
structure Pipeline where
  front : L1Stages
  batchQueue : BatchQueue
  stages : Stages
  progress : L1BlockRef
  resetting : ℕ
  pullResetIdx : ℕ

def Error.inStage (what : String) : Error → Error
  | .eof => .eof
  | .notEnoughData => .notEnoughData
  | .temporary message => .temporary (what ++ message)
  | .reset message => .reset (what ++ message)
  | .critical message => .critical (what ++ message)
  | .panic => .panic

def EngineQueue.new : EngineQueue where
  finalized := L2BlockRef.zero
  safeHead := L2BlockRef.zero
  unsafeHead := L2BlockRef.zero
  finalizedL1 := ⟨0, 0⟩
  safeAttributes := []
  unsafePayloads := []
  finalityData := []

namespace Pipeline

def new : Pipeline where
  front :=
    { traversal := { block := L1BlockRef.zero, done := false }
      datas := none
      bank := ChannelBank.empty
      nextBatchFn := none }
  batchQueue := { origin := L1BlockRef.zero, l1Blocks := [], batches := fun _ => [] }
  stages := { batch := none, queue := EngineQueue.new }
  progress := L1BlockRef.zero
  resetting := 0
  pullResetIdx := 0

def reset (p : Pipeline) : Pipeline := { p with resetting := 0, pullResetIdx := 0 }

section Steps

variable (keccak : Bytes → Hash) (codec : TxCodec) (zlib : Zlib.Codec) (cfg : Config)
  (inbox : InboxConfig) (answers : PipelineAnswers) (p : Pipeline)

/-- The reset of the engine queue, which ends with the L1 block for the other stages. -/
def resetEngine : Pipeline × Except Error Unit :=
  match p.stages.queue.resetStep cfg answers.reset with
  | (queue, .error err) =>
    ({ p with stages := { p.stages with queue } },
      .error (err.inStage "stage 0 failed resetting: "))
  | (queue, .ok progress) =>
    ({ p with
      stages := { p.stages with queue }
      progress
      resetting := p.resetting + 1 }, .ok ())

/-- The reset of one of the other stages. The attributes queue keeps its batch. -/
def resetStage : Pipeline :=
  let next := match p.pullResetIdx with
    | 1 => { p with batchQueue := BatchQueue.reset p.progress }
    | 2 => { p with front := { p.front with nextBatchFn := none } }
    | 3 => { p with front := { p.front with bank := ChannelBank.empty } }
    | 4 =>
      { p with front := { p.front with
        datas := some (DataSource.new inbox answers.txs.opened p.progress.id) } }
    | 5 => { p with front := { p.front with traversal := { block := p.progress, done := false } } }
    | _ => p
  { next with pullResetIdx := p.pullResetIdx + 1 }

/-- The attributes queue asks for a batch when it has none and the engine queue has no
attributes. -/
def pull : Pipeline × Except Error BatchData :=
  if p.stages.queue.safeAttributes = [] ∧ p.stages.batch = none then
    let (front, answer) := p.front.nextBatch zlib cfg inbox answers.txs
    let (batchQueue, result) := p.batchQueue.nextBatch cfg
      { origin := front.traversal.block, nextBatch := answer } p.stages.queue.safeHead
    ({ p with front, batchQueue }, result)
  else (p, .error .eof)

def work : Pipeline × Except Error Unit × List EngineCall :=
  let (p, nextBatch) := p.pull zlib cfg inbox answers
  let inputs : StepInputs :=
    { prev := { nextBatch, origin := p.front.traversal.block }
      dl := answers.dl
      eng := answers.eng }
  let next := (nextAttributes keccak codec cfg inputs.dl nextBatch p.stages.batch
    p.stages.queue.safeHead).2
  let (batch, out) := p.stages.step keccak codec cfg inputs
  ({ p with stages := { batch, queue := out.queue } }, out.result,
    p.stages.queue.calls codec cfg inputs.eng next)

/-- A step, with the calls to the engine: the stages are reset one by one, then the engine queue
works, and when it is out of data the next L1 block is looked for. -/
def step : Pipeline × Except Error Unit × List EngineCall :=
  if p.resetting < 1 then
    let (p, result) := p.resetEngine cfg answers
    (p, result, [])
  else if p.pullResetIdx < 6 then (p.resetStage inbox answers, .ok (), [])
  else
    match p.work keccak codec zlib cfg inbox answers with
    | (p, .error .eof, calls) =>
      let (traversal, result) := p.front.traversal.advanceL1Block answers.reset.l1
      ({ p with front := { p.front with traversal } }, result, calls)
    | (p, .error err, calls) => (p, .error (err.inStage "stage 0 failed: "), calls)
    | (p, .ok (), calls) => (p, .ok (), calls)

end Steps

section Runs

variable (keccak : Bytes → Hash) (codec : TxCodec) (zlib : Zlib.Codec) (cfg : Config)
  (inbox : InboxConfig)

/-- The results and engine calls of the next steps. The answers of a step may depend on the calls
before it. -/
def observe (env : List (List EngineCall) → PipelineAnswers) :
    ℕ → List (List EngineCall) → Pipeline → List (Except Error Unit × List EngineCall)
  | 0, _, _ => []
  | n + 1, history, p =>
    let (p, result, calls) := p.step keccak codec zlib cfg inbox (env history)
    (result, calls) :: observe env n (history ++ [calls]) p

def steps (answers : List PipelineAnswers) (p : Pipeline) : Pipeline :=
  answers.foldl (fun p answers => (p.step keccak codec zlib cfg inbox answers).1) p

end Runs

def forget (p : Pipeline) : Pipeline :=
  { p with
    front :=
      { traversal :=
          if p.pullResetIdx < 6 then { block := L1BlockRef.zero, done := false }
          else p.front.traversal
        datas := if p.pullResetIdx < 5 then none else p.front.datas
        bank := if p.pullResetIdx < 4 then ChannelBank.empty else p.front.bank
        nextBatchFn := if p.pullResetIdx < 3 then none else p.front.nextBatchFn }
    batchQueue := if p.pullResetIdx < 2 then BatchQueue.reset L1BlockRef.zero else p.batchQueue
    stages := { p.stages with
      queue :=
        if p.resetting < 1 then p.stages.queue.setHeads
          { unsafeHead := L2BlockRef.zero
            safeHead := L2BlockRef.zero
            finalized := L2BlockRef.zero }
        else p.stages.queue }
    progress := if p.resetting < 1 then L1BlockRef.zero else p.progress }

variable {keccak : Bytes → Hash} {codec : TxCodec} {zlib : Zlib.Codec} {cfg : Config}
  {inbox : InboxConfig} {p q : Pipeline}

theorem forget_of_complete (hengine : ¬ p.resetting < 1) (hstages : ¬ p.pullResetIdx < 6) :
    p.forget = p := by
  unfold forget
  rw [if_neg hstages, if_neg (by omega), if_neg (by omega), if_neg (by omega),
    if_neg (by omega), if_neg hengine, if_neg hengine]

theorem forget_forget (p : Pipeline) : p.forget.forget = p.forget := by
  unfold forget
  dsimp only
  split_ifs <;> rfl

variable (answers : PipelineAnswers)

theorem resetEngine_forget (h : p.resetting < 1) :
    (p.forget.resetEngine cfg answers).2 = (p.resetEngine cfg answers).2 ∧
      (p.forget.resetEngine cfg answers).1.forget = (p.resetEngine cfg answers).1.forget := by
  unfold resetEngine EngineQueue.resetStep
  cases hpoint : EngineQueue.resetPoint cfg answers.reset with
  | error => exact ⟨rfl, p.forget_forget⟩
  | ok =>
    refine ⟨rfl, ?_⟩
    dsimp only
    unfold forget
    dsimp only
    rw [if_pos h]
    split_ifs <;> rfl

theorem resetStage_forget (hengine : ¬ p.resetting < 1) (h : p.pullResetIdx < 6) :
    (p.forget.resetStage inbox answers).forget = (p.resetStage inbox answers).forget := by
  obtain ⟨front, batchQueue, stages, progress, resetting, pullResetIdx⟩ := p
  dsimp only at h hengine
  interval_cases pullResetIdx <;> simp [forget, resetStage, hengine]

theorem step_forget (p : Pipeline) :
    (p.forget.step keccak codec zlib cfg inbox answers).2 =
      (p.step keccak codec zlib cfg inbox answers).2 ∧
    (p.forget.step keccak codec zlib cfg inbox answers).1.forget =
      (p.step keccak codec zlib cfg inbox answers).1.forget := by
  by_cases hengine : p.resetting < 1
  · have hforget : p.forget.resetting < 1 := hengine
    obtain ⟨hresult, hstate⟩ := resetEngine_forget answers hengine
    unfold step
    rw [if_pos hengine, if_pos hforget]
    exact ⟨congrArg (fun result => (result, [])) hresult, hstate⟩
  · by_cases hstages : p.pullResetIdx < 6
    · have hforget : ¬ p.forget.resetting < 1 := hengine
      have hforget' : p.forget.pullResetIdx < 6 := hstages
      unfold step
      rw [if_neg hengine, if_neg hforget, if_pos hstages, if_pos hforget']
      exact ⟨rfl, resetStage_forget answers hengine hstages⟩
    · rw [forget_of_complete hengine hstages]
      exact ⟨rfl, rfl⟩

theorem observe_eq_of_forget (env : List (List EngineCall) → PipelineAnswers)
    (h : p.forget = q.forget) (n : ℕ) (history : List (List EngineCall)) :
    p.observe keccak codec zlib cfg inbox env n history =
      q.observe keccak codec zlib cfg inbox env n history := by
  induction n generalizing p q history with
  | zero => rfl
  | succ n ih =>
    obtain ⟨hp, hpnext⟩ := @step_forget keccak codec zlib cfg inbox (env history) p
    obtain ⟨hq, hqnext⟩ := @step_forget keccak codec zlib cfg inbox (env history) q
    rw [h] at hp hpnext
    rcases hstep : p.step keccak codec zlib cfg inbox (env history) with ⟨p', result, calls⟩
    rcases hstep' : q.step keccak codec zlib cfg inbox (env history) with ⟨q', result', calls'⟩
    rw [hstep] at hp hpnext
    rw [hstep'] at hq hqnext
    have hsame : (result, calls) = (result', calls') := hp.symm.trans hq
    cases hsame
    simp only [observe, hstep, hstep']
    rw [ih (hpnext.symm.trans hqnext)]

theorem forget_reset_eq (hbatch : p.stages.batch = q.stages.batch)
    (hattrs : p.stages.queue.safeAttributes = q.stages.queue.safeAttributes)
    (hpayloads : p.stages.queue.unsafePayloads = q.stages.queue.unsafePayloads)
    (hsignal : p.stages.queue.finalizedL1 = q.stages.queue.finalizedL1) :
    p.reset.forget = q.reset.forget := by
  simp [reset, forget, EngineQueue.setHeads, hbatch, hattrs, hpayloads, hsignal]

/-- No batch is kept, no attributes wait, and nothing came from outside the pipeline. -/
structure Idle (p : Pipeline) : Prop where
  batch : p.stages.batch = none
  attributes : p.stages.queue.safeAttributes = []
  payloads : p.stages.queue.unsafePayloads = []
  signal : p.stages.queue.finalizedL1 = ⟨0, 0⟩

end Pipeline

/-- The attributes open with the info of a block of the L1 chain. -/
def MadeFrom (keccak : Bytes → Hash) (codec : TxCodec) (l1 : L1Chain)
    (attrs : PayloadAttributes) : Prop :=
  ∃ origin seqNumber l1InfoTx rest, l1.block origin.info.hash = some origin ∧
    l1InfoDepositBytes keccak codec seqNumber origin.info = .ok l1InfoTx ∧
    attrs.transactions = l1InfoTx :: rest

section Provenance

variable {keccak : Bytes → Hash} {codec : TxCodec} {zlib : Zlib.Codec} {cfg : Config}
  {inbox : InboxConfig} {l1 : L1Chain} {attrs : PayloadAttributes}

theorem MadeFrom.strip (h : MadeFrom keccak codec l1 attrs) :
    MadeFrom keccak codec l1
      { attrs with transactions := attrs.transactions.filter isDeposit } := by
  obtain ⟨origin, seqNumber, l1InfoTx, rest, hknown, hinfo, htxs⟩ := h
  refine ⟨origin, seqNumber, l1InfoTx, rest.filter isDeposit, hknown, hinfo, ?_⟩
  rw [htxs, List.filter_cons_of_pos (isDeposit_l1InfoDepositBytes hinfo)]

theorem madeFrom_createNextAttributes {dl : L1Answers} {batch : BatchData} {parent : L2BlockRef}
    (hdl : dl.From l1) (h : createNextAttributes keccak codec cfg dl batch parent = .ok attrs) :
    MadeFrom keccak codec l1 attrs := by
  unfold createNextAttributes at h
  obtain ⟨-, h⟩ := of_ite_eq (by simp) h
  simp only [Checked.bind_eq_ok, Checked.pure_eq_ok] at h
  obtain ⟨prepared, hprepared, rfl⟩ := h
  obtain ⟨origin, seqNumber, deposits, l1InfoTx, hblock, -, hinfo, -, htxs⟩ :=
    preparePayloadAttributes_eq_ok hdl hprepared
  refine ⟨origin, seqNumber, l1InfoTx, deposits ++ batch.transactions, ?_, hinfo, ?_⟩
  · rw [l1.hash_eq hblock, hblock]
  · rw [htxs, List.cons_append]

theorem SafeEffect.madeFrom {eng : EngineAnswers} {eq : EngineQueue} {out : Outcome}
    (h : SafeEffect codec cfg eng eq out)
    (hmade : ∀ attrs ∈ eq.safeAttributes, MadeFrom keccak codec l1 attrs) :
    ∀ attrs ∈ out.queue.safeAttributes, MadeFrom keccak codec l1 attrs := by
  cases h with
  | idle _ hattrs =>
    rw [hattrs]
    exact hmade
  | stripped hold _ _ _ hattrs =>
    rw [hold, List.forall_mem_cons] at hmade
    rw [hattrs, List.forall_mem_cons]
    exact ⟨hmade.1.strip, hmade.2⟩
  | promoted hold hattrs =>
    rw [hold, List.forall_mem_cons] at hmade
    rw [hattrs]
    exact hmade.2

theorem Stages.step_madeFrom {inputs : StepInputs} {stages : Stages} (hdl : inputs.dl.From l1)
    (hmade : ∀ attrs ∈ stages.queue.safeAttributes, MadeFrom keccak codec l1 attrs) :
    ∀ attrs ∈ (stages.step keccak codec cfg inputs).2.queue.safeAttributes,
      MadeFrom keccak codec l1 attrs := by
  rcases hasked : nextAttributes keccak codec cfg inputs.dl inputs.prev.nextBatch stages.batch
    stages.queue.safeHead with ⟨left, answer⟩
  obtain ⟨-, hcreated⟩ := nextAttributes_cases (p := fun _ => True) (by simp) (by simp) hasked
  rw [Stages.step_eq hasked]
  rcases stages.queue.step_cases with ⟨attrs, hattrs, -, hout⟩ | heffect
  · obtain ⟨batch, -, hcreate⟩ := hcreated attrs hattrs
    rw [hout]
    exact List.forall_mem_singleton.mpr (madeFrom_createNextAttributes hdl hcreate)
  · exact heffect.madeFrom hmade

namespace Pipeline

variable {p : Pipeline} {answers : PipelineAnswers}

theorem pull_stages : (p.pull zlib cfg inbox answers).1.stages = p.stages := by
  unfold pull
  split <;> rfl

variable (zlib cfg inbox) (hdl : answers.dl.From l1)
  (hmade : ∀ attrs ∈ p.stages.queue.safeAttributes, MadeFrom keccak codec l1 attrs)
include hdl hmade

theorem work_madeFrom :
    (∀ attrs ∈ (p.work keccak codec zlib cfg inbox answers).1.stages.queue.safeAttributes,
      MadeFrom keccak codec l1 attrs) ∧
    ∀ fc attrs, .forkchoiceUpdate fc (some attrs) ∈
      (p.work keccak codec zlib cfg inbox answers).2.2 →
      MadeFrom keccak codec l1 attrs := by
  simp only [work, pull_stages]
  refine ⟨Stages.step_madeFrom hdl hmade, ?_⟩
  intro fc attrs hcall
  exact hmade attrs (EngineQueue.mem_safeAttributes_of_mem_calls hcall)

theorem step_madeFrom :
    (∀ attrs ∈ (p.step keccak codec zlib cfg inbox answers).1.stages.queue.safeAttributes,
      MadeFrom keccak codec l1 attrs) ∧
    ∀ fc attrs, .forkchoiceUpdate fc (some attrs) ∈
      (p.step keccak codec zlib cfg inbox answers).2.2 →
      MadeFrom keccak codec l1 attrs := by
  unfold step
  split
  next =>
    -- the reset of the engine queue keeps the attributes and asks the engine for blocks only
    refine ⟨?_, by simp⟩
    unfold resetEngine EngineQueue.resetStep
    cases EngineQueue.resetPoint cfg answers.reset <;> exact hmade
  next =>
    split
    next =>
      refine ⟨?_, by simp⟩
      unfold resetStage
      split <;> exact hmade
    next =>
      obtain ⟨hattrs, hcalls⟩ := work_madeFrom zlib cfg inbox hdl hmade
      split
      next p' calls hwork =>
        rw [hwork] at hattrs hcalls
        exact ⟨hattrs, hcalls⟩
      next p' err calls _ hwork =>
        rw [hwork] at hattrs hcalls
        exact ⟨hattrs, hcalls⟩
      next p' calls hwork =>
        rw [hwork] at hattrs hcalls
        exact ⟨hattrs, hcalls⟩

omit hdl in
theorem observe_madeFrom {env : List (List EngineCall) → PipelineAnswers}
    (hdl : ∀ history, (env history).dl.From l1) (n : ℕ) (history : List (List EngineCall)) :
    ∀ seen ∈ p.observe keccak codec zlib cfg inbox env n history, ∀ fc attrs,
      .forkchoiceUpdate fc (some attrs) ∈ seen.2 → MadeFrom keccak codec l1 attrs := by
  induction n generalizing p history with
  | zero => simp [observe]
  | succ n ih =>
    rcases hstep : p.step keccak codec zlib cfg inbox (env history) with ⟨p', result, calls⟩
    obtain ⟨hattrs, hcalls⟩ := step_madeFrom zlib cfg inbox (hdl history) hmade
    rw [hstep] at hattrs hcalls
    simp only [observe, hstep]
    exact List.forall_mem_cons.mpr ⟨hcalls, ih hattrs _⟩

end Pipeline

end Provenance

/-- From a reset on, two pipelines with nothing pending look the same, whatever else they held:
every step has the same result and makes the same calls. What the engine is asked to build comes
from the L1 chain as it is after the reset. -/
theorem observe_reset_eq {keccak : Bytes → Hash} {codec : TxCodec} {zlib : Zlib.Codec}
    {cfg : Config} {inbox : InboxConfig} {p q : Pipeline} (hp : p.Idle) (hq : q.Idle)
    (env : List (List EngineCall) → PipelineAnswers) (n : ℕ)
    (history : List (List EngineCall)) :
    p.reset.observe keccak codec zlib cfg inbox env n history =
      q.reset.observe keccak codec zlib cfg inbox env n history ∧
    ∀ l1, (∀ history, (env history).dl.From l1) →
      ∀ seen ∈ p.reset.observe keccak codec zlib cfg inbox env n history, ∀ fc attrs,
        .forkchoiceUpdate fc (some attrs) ∈ seen.2 → MadeFrom keccak codec l1 attrs := by
  refine ⟨Pipeline.observe_eq_of_forget env (Pipeline.forget_reset_eq
    (hp.batch.trans hq.batch.symm) (hp.attributes.trans hq.attributes.symm)
    (hp.payloads.trans hq.payloads.symm) (hp.signal.trans hq.signal.symm)) n history, ?_⟩
  intro l1 hdl
  have hmade : ∀ attrs ∈ p.reset.stages.queue.safeAttributes, MadeFrom keccak codec l1 attrs := by
    simp [Pipeline.reset, hp.attributes]
  exact Pipeline.observe_madeFrom zlib cfg inbox hmade hdl n history

def reorgConfig : Config := { devnetConfig with seqWindowSize := 1, channelTimeout := 0 }

def reorgInbox : InboxConfig where
  batchInboxAddress := 0xff01
  batchSenderAddress := 0x51

def reorgGenesis : L2BlockRef := ⟨0xc0, 0, 0, 1000, ⟨0xa0, 90⟩, 0⟩

def reorgInfo (hash : Hash) : BlockInfo where
  hash
  parentHash := 0xa0
  number := 91
  time := 1001
  mixDigest := 1
  baseFee := 7

/-- The L1 block after the genesis block has the given hash, and the engine is at its genesis
block. -/
def reorgAnswers (next : Hash) (eng : EngineAnswers) : PipelineAnswers :=
  let info := reorgInfo next
  let genesis : L1BlockRef := ⟨0xa0, 90, 0x9f, 1000⟩
  { reset :=
      { l1 := fun number =>
          if number = 90 then .ok genesis
          else if number = 91 then
            .ok ⟨next, 91, 0xa0, 1001⟩
          else .error .notFound
        l1ByHash := fun h => if h = 0xa0 then .ok genesis else .error .notFound
        l2 :=
          { byHash := fun h => if h = 0xc0 then .ok reorgGenesis else .error .notFound
            byLabel := fun _ => .ok reorgGenesis } }
    txs := { opened := fun _ => .ok [], again := fun _ => .ok [] }
    dl :=
      { fetch := fun h =>
          if h = next then .ok (info, .receipts []) else .error "not found"
        infoByHash := fun h => if h = next then .ok info else .error "not found" }
    eng }

def reorgSteps (n : ℕ) (next : Hash) (attrs : PayloadAttributes) (p : Pipeline) : Pipeline :=
  p.steps epochKeccak256 depositCodec Zlib.stored reorgConfig reorgInbox
    (List.replicate n (reorgAnswers next (builder reorgGenesis attrs 0xc1 .valid)))

def reorgPending : Pipeline := reorgSteps 9 0xa1 idleAttributes .new

def staleAttributes : PayloadAttributes :=
  reorgPending.stages.queue.safeAttributes.headD idleAttributes

def reorgEnv (_ : List (List EngineCall)) : PipelineAnswers :=
  reorgAnswers 0xb1 (builder reorgGenesis staleAttributes 0xc1 .valid)

def reorgObserve (n : ℕ) (p : Pipeline) : List (Except Error Unit × List EngineCall) :=
  p.observe epochKeccak256 depositCodec Zlib.stored reorgConfig reorgInbox reorgEnv n []

/-- The attributes of an L1 block that is not there any more are applied after the reset. -/
theorem stale_attributes_applied :
    reorgPending.stages.queue.unsafePayloads = [] ∧
    reorgPending.stages.queue.finalizedL1 = ⟨0, 0⟩ ∧
    reorgPending.stages.queue.safeAttributes.length = 1 ∧
    (reorgSteps 8 0xb1 staleAttributes reorgPending.reset).stages.queue.safeHead.l1Origin =
      ⟨0xa1, 91⟩ ∧
    (reorgSteps 8 0xb1 staleAttributes Pipeline.new.reset).stages.queue.safeHead =
      reorgGenesis ∧
    (reorgObserve 8 reorgPending.reset).map (fun seen => seen.2.length) =
      [0, 0, 0, 0, 0, 0, 0, 4] ∧
    (reorgObserve 8 Pipeline.new.reset).map (fun seen => seen.2.length) =
      [0, 0, 0, 0, 0, 0, 0, 0] := by
  decide +kernel

/-- The L1 chain after the reorg. -/
def reorgL1 : L1Chain where
  block h := if h = 0xb1 then some { info := reorgInfo 0xb1, receipts := [] } else none
  hash_eq := by
    intro h b hb
    obtain ⟨rfl, hb⟩ := Option.ite_none_right_eq_some.mp hb
    cases hb
    rfl
  number_succ := by
    intro h b parent hb hparent
    obtain ⟨-, hb⟩ := Option.ite_none_right_eq_some.mp hb
    cases hb
    cases hparent

theorem from_reorgEnv (history : List (List EngineCall)) : (reorgEnv history).dl.From reorgL1 := by
  constructor
  · intro h info receipts hfetch
    dsimp only [reorgEnv, reorgAnswers] at hfetch
    split at hfetch
    next hhash =>
      cases hfetch
      exact if_pos hhash
    next => cases hfetch
  · intro h info hinfo
    dsimp only [reorgEnv, reorgAnswers] at hinfo
    split at hinfo
    next hhash =>
      cases hinfo
      exact ⟨[], if_pos hhash⟩
    next => cases hinfo

/-- A pipeline that has gone on to the block that is reorged out asks for the same blocks after the
reset as a new one, and they come from the new L1 chain. -/
theorem observe_reset_new :
    (reorgSteps 8 0xa1 idleAttributes .new).front.traversal.block.hash = 0xa1 ∧
    reorgObserve 10 (reorgSteps 8 0xa1 idleAttributes .new).reset =
      reorgObserve 10 Pipeline.new.reset ∧
    (reorgObserve 10 Pipeline.new.reset).map (fun seen => seen.2.length) =
      [0, 0, 0, 0, 0, 0, 0, 0, 0, 1] ∧
    ∀ seen ∈ reorgObserve 10 (reorgSteps 8 0xa1 idleAttributes .new).reset, ∀ fc attrs,
      .forkchoiceUpdate fc (some attrs) ∈ seen.2 →
      MadeFrom epochKeccak256 depositCodec reorgL1 attrs := by
  have hidle : (reorgSteps 8 0xa1 idleAttributes .new).Idle :=
    ⟨by decide +kernel, by decide +kernel, by decide +kernel, by decide +kernel⟩
  obtain ⟨hsame, hmade⟩ := @observe_reset_eq epochKeccak256 depositCodec Zlib.stored reorgConfig
    reorgInbox _ .new hidle ⟨rfl, rfl, rfl, rfl⟩ reorgEnv 10 []
  exact ⟨by decide +kernel, hsame, by decide +kernel, hmade reorgL1 from_reorgEnv⟩

end Derive
