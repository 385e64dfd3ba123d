import TokamakTitan.Derive.Engine

/-! The engine queue and the attributes queue that feeds it: attributes become safe blocks by
agreement with a block of the unsafe chain or by insertion of a new one. -/
namespace Derive

def L1BlockRef.id (ref : L1BlockRef) : BlockID := { hash := ref.hash, number := ref.number }

def finalityLookback : ℕ := 4 * 32 + 1

structure FinalityData where
  l2Block : L2BlockRef
  l1Block : BlockID
  deriving DecidableEq

structure EngineQueue where
  finalized : L2BlockRef
  safeHead : L2BlockRef
  unsafeHead : L2BlockRef
  finalizedL1 : BlockID
  safeAttributes : List PayloadAttributes
  unsafePayloads : List ExecutionPayload
  finalityData : List FinalityData
  deriving DecidableEq

structure Outcome where
  queue : EngineQueue
  result : Except Error Unit
  promoted : Option ExecutionPayload

namespace EngineQueue

variable (eq : EngineQueue)

def stop (result : Except Error Unit) : Outcome :=
  { queue := eq, result, promoted := none }

def tryFinalizeL2 : EngineQueue :=
  if eq.finalizedL1 = ⟨0, 0⟩ then eq
  else
    let finalizedL2 := eq.finalityData.foldl (fun best fd =>
      if fd.l2Block.number > best.number ∧ fd.l1Block.number ≤ eq.finalizedL1.number then fd.l2Block
      else best) eq.finalized
    { eq with finalized := finalizedL2 }

def finalize (l1Origin : BlockID) : EngineQueue :=
  { eq with finalizedL1 := l1Origin }.tryFinalizeL2

def setUnsafeHead (head : L2BlockRef) : EngineQueue :=
  { eq with unsafeHead := head }

/-- The tracked relations with the safe head in them. The oldest one makes room. -/
def recordFinality (data : List FinalityData) (safeHead : L2BlockRef) (origin : L1BlockRef) :
    List FinalityData :=
  let pruned :=
    if finalityLookback ≤ data.length then (data.take finalityLookback).drop 1 else data
  match pruned.getLast? with
  | none => pruned ++ [{ l2Block := safeHead, l1Block := origin.id }]
  | some last =>
    if last.l1Block.number < origin.number then
      pruned ++ [{ l2Block := safeHead, l1Block := origin.id }]
    else pruned.dropLast ++ [{ last with l2Block := safeHead }]

def postProcessSafeL2 (origin : L1BlockRef) : EngineQueue :=
  { eq with finalityData := recordFinality eq.finalityData eq.safeHead origin }

def promote (origin : L1BlockRef) (payload : ExecutionPayload) (ref : L2BlockRef) : Outcome where
  queue := { eq with
    safeHead := ref
    safeAttributes := eq.safeAttributes.tail }.postProcessSafeL2 origin
  result := .ok ()
  promoted := some payload

variable (codec : TxCodec) (cfg : Config) (eng : EngineAnswers) (origin : L1BlockRef)
  (eq : EngineQueue)

def forceNextSafeAttributes : Outcome :=
  match eq.safeAttributes with
  | [] => eq.stop (.ok ())
  | attrs :: rest =>
    let fc : ForkchoiceState :=
      { headBlockHash := eq.safeHead.hash
        safeBlockHash := eq.safeHead.hash
        finalizedBlockHash := eq.finalized.hash }
    match insertHeadBlock eng fc attrs true with
    | .error (.temporary err) =>
      eq.stop (.error (.temporary s!"temporarily cannot insert new safe block: {err}"))
    | .error (.prestate err) =>
      eq.stop (.error (.reset s!"need reset to resolve pre-state problem: {err}"))
    | .error (.payload err) =>
      let deposits := attrs.transactions.filter isDeposit
      if attrs.transactions.length > deposits.length then
        { eq with
          safeAttributes := { attrs with transactions := deposits } :: rest }.stop (.ok ())
      else
        eq.stop (.error
          (.critical s!"failed to process block with only deposit transactions: {err}"))
    | .error .panic => eq.stop (.error .panic)
    | .ok payload =>
      match payloadToBlockRef codec payload cfg.genesis with
      | .error err =>
        eq.stop (.error (.temporary s!"failed to decode L2 block ref from payload: {err}"))
      | .ok ref => { eq with unsafeHead := ref }.promote origin payload ref

def consolidateNextSafeAttributes : Outcome :=
  match eng.payloadByNumber (eq.safeHead.number + 1) with
  | .error .notFound =>
    eq.stop (.error (.reset ("expected engine was synced and had unsafe block to reconcile, " ++
      "but cannot find the block: not found")))
  | .error (.other err) =>
    eq.stop (.error (.temporary ("failed to get existing unsafe payload to compare against " ++
      s!"derived attributes from L1: {err}")))
  | .ok payload =>
    match eq.safeAttributes with
    | [] => eq.stop (.error .panic)
    | attrs :: _ =>
      match attributesMatchBlock attrs eq.safeHead.hash payload with
      | .error _ => eq.forceNextSafeAttributes codec cfg eng origin
      | .ok () =>
        match payloadToBlockRef codec payload cfg.genesis with
        | .error err =>
          eq.stop (.error (.reset s!"failed to decode L2 block ref from payload: {err}"))
        | .ok ref => eq.promote origin payload ref

def tryNextSafeAttributes : Outcome :=
  if eq.safeHead.number < eq.unsafeHead.number then
    eq.consolidateNextSafeAttributes codec cfg eng origin
  else if eq.safeHead.number = eq.unsafeHead.number then
    eq.forceNextSafeAttributes codec cfg eng origin
  else { eq with unsafeHead := eq.safeHead }.stop (.ok ())

def popUnsafe : EngineQueue :=
  { eq with unsafePayloads := eq.unsafePayloads.tail }

def adoptUnsafePayload (first : ExecutionPayload) (ref : L2BlockRef) : Outcome :=
  let fc : ForkchoiceState :=
    { headBlockHash := first.blockHash
      safeBlockHash := eq.safeHead.hash
      finalizedBlockHash := eq.finalized.hash }
  match eng.forkchoiceUpdate fc none with
  | .error (.input code err) =>
    if code = invalidForkchoiceState then
      eq.stop (.error (.reset ("pre-unsafe-block forkchoice update was inconsistent with " ++
        s!"engine, need reset to resolve: {err}")))
    else
      eq.stop (.error (.temporary ("unexpected error code in forkchoice-updated response: " ++
        (EngineError.input code err).text)))
  | .error (.rpc err) =>
    eq.stop (.error (.temporary
      s!"failed to update forkchoice to prepare for new unsafe payload: {err}"))
  | .ok fcRes =>
    if fcRes.payloadStatus ≠ .valid then
      eq.popUnsafe.stop (.error (.temporary ("cannot prepare unsafe chain for new payload: " ++
          forkchoiceUpdateErr fcRes.payloadStatus)))
    else { eq with unsafeHead := ref }.popUnsafe.stop (.ok ())

def tryNextUnsafePayload : Outcome :=
  match eq.unsafePayloads with
  | [] => eq.stop (.error .panic)
  | first :: _ =>
    if first.blockNumber ≤ eq.safeHead.number then eq.popUnsafe.stop (.ok ())
    else if first.parentHash ≠ eq.unsafeHead.hash then
      if first.blockNumber = eq.unsafeHead.number + 1 then eq.popUnsafe.stop (.error .eof)
      else eq.stop (.error .eof)
    else match payloadToBlockRef codec first cfg.genesis with
      | .error _ => eq.popUnsafe.stop (.ok ())
      | .ok ref =>
        match eng.newPayload first with
        | .error err =>
          eq.stop (.error (.temporary s!"failed to update insert payload: {err.text}"))
        | .ok .valid => eq.adoptUnsafePayload eng first ref
        | .ok status =>
          eq.popUnsafe.stop (.error (.temporary
            ("cannot process unsafe payload: " ++ newPayloadErr status)))

/-- A step. `next` is the answer of the attributes queue, which is asked when no attributes are
left. -/
def step (next : Except Error PayloadAttributes) (eq : EngineQueue) : Outcome :=
  if eq.safeAttributes ≠ [] then eq.tryNextSafeAttributes codec cfg eng origin
  else
    match next with
    | .ok next =>
      { eq with safeAttributes := eq.safeAttributes ++ [next] }.stop (.error .notEnoughData)
    | .error .eof =>
      if eq.unsafePayloads ≠ [] then eq.tryNextUnsafePayload codec cfg eng
      else eq.stop (.error .eof)
    | .error err => eq.stop (.error err)

end EngineQueue

structure BatchQueueAnswers where
  nextBatch : Except Error BatchData
  origin : L1BlockRef

/-- The last two stages: the batch that the attributes queue keeps, and the engine queue. -/
structure Stages where
  batch : Option BatchData
  queue : EngineQueue
  deriving DecidableEq

structure StepInputs where
  prev : BatchQueueAnswers
  dl : L1Answers
  eng : EngineAnswers

/-- A step of the engine queue, which asks the attributes queue when no attributes are left. -/
def Stages.step (keccak : Bytes → Hash) (codec : TxCodec) (cfg : Config) (inputs : StepInputs)
    (stages : Stages) : Option BatchData × Outcome :=
  let eq := stages.queue
  let (batch, next) := nextAttributes keccak codec cfg inputs.dl inputs.prev.nextBatch
    stages.batch eq.safeHead
  -- the attributes queue is asked, and gives its batch away, only when no attributes are left
  (if eq.safeAttributes ≠ [] then stages.batch else batch,
    eq.step codec cfg inputs.eng inputs.prev.origin next)

variable {codec : TxCodec} {cfg : Config} {eng : EngineAnswers} {origin : L1BlockRef}

inductive Source (eng : EngineAnswers) (parent : L2BlockRef) (attrs : PayloadAttributes)
    (payload : ExecutionPayload) : Prop
  | built {fc : ForkchoiceState} {fcRes : ForkchoiceUpdatedResult} {id : PayloadID}
      (hparent : fc.headBlockHash = parent.hash)
      (hstart : eng.forkchoiceUpdate fc (some attrs) = .ok fcRes)
      (hid : fcRes.payloadID = some id) (hget : eng.getPayload id = .ok payload)
      (hexec : eng.newPayload payload = .ok .valid)
  | found (hget : eng.payloadByNumber (parent.number + 1) = .ok payload)
      (hmatch : attributesMatchBlock attrs parent.hash payload = .ok ())

inductive SafeEffect (codec : TxCodec) (cfg : Config) (eng : EngineAnswers) (eq : EngineQueue) :
    Outcome → Prop
  | idle {out : Outcome} (hhead : out.queue.safeHead = eq.safeHead)
      (hattrs : out.queue.safeAttributes = eq.safeAttributes) (hnone : out.promoted = none) :
      SafeEffect codec cfg eng eq out
  | stripped {out : Outcome} {attrs : PayloadAttributes} {rest : List PayloadAttributes}
      {fc : ForkchoiceState} {err : String} (hold : eq.safeAttributes = attrs :: rest)
      (hparent : fc.headBlockHash = eq.safeHead.hash)
      (hfailed : insertHeadBlock eng fc attrs true = .error (.payload err))
      (hhead : out.queue.safeHead = eq.safeHead)
      (hattrs : out.queue.safeAttributes =
        { attrs with transactions := attrs.transactions.filter isDeposit } :: rest)
      (hnone : out.promoted = none) : SafeEffect codec cfg eng eq out
  | promoted {out : Outcome} {attrs : PayloadAttributes} {rest : List PayloadAttributes}
      {payload : ExecutionPayload} (hold : eq.safeAttributes = attrs :: rest)
      (hattrs : out.queue.safeAttributes = rest) (hsource : Source eng eq.safeHead attrs payload)
      (href : payloadToBlockRef codec payload cfg.genesis = .ok out.queue.safeHead)
      (hsome : out.promoted = some payload) : SafeEffect codec cfg eng eq out

namespace EngineQueue

variable (eq : EngineQueue)

@[simp] theorem finalize_safeHead (l1Origin : BlockID) :
    (eq.finalize l1Origin).safeHead = eq.safeHead := by
  unfold finalize tryFinalizeL2
  split <;> rfl

@[simp] theorem finalize_safeAttributes (l1Origin : BlockID) :
    (eq.finalize l1Origin).safeAttributes = eq.safeAttributes := by
  unfold finalize tryFinalizeL2
  split <;> rfl

theorem stop_idle (result : Except Error Unit) :
    SafeEffect codec cfg eng eq (eq.stop result) := .idle rfl rfl rfl

theorem forceNextSafeAttributes_effect :
    SafeEffect codec cfg eng eq (eq.forceNextSafeAttributes codec cfg eng origin) := by
  unfold forceNextSafeAttributes
  split
  next => exact eq.stop_idle _
  next attrs rest hold =>
    dsimp only
    split
    next => exact eq.stop_idle _
    next => exact eq.stop_idle _
    next err hfailed =>
      split
      next => exact .stripped hold rfl hfailed rfl rfl rfl
      next => exact eq.stop_idle _
    next => exact eq.stop_idle _
    next payload hinsert =>
      obtain ⟨fcRes, id, hstart, hid, hget, hexec⟩ := insertHeadBlock_eq_ok hinsert
      split
      next => exact eq.stop_idle _
      next ref href =>
        refine .promoted hold ?_ (.built rfl hstart hid hget hexec) ?_ rfl
        · show eq.safeAttributes.tail = rest
          rw [hold, List.tail_cons]
        · exact href

theorem consolidateNextSafeAttributes_effect :
    SafeEffect codec cfg eng eq (eq.consolidateNextSafeAttributes codec cfg eng origin) := by
  unfold consolidateNextSafeAttributes
  split
  next => exact eq.stop_idle _
  next => exact eq.stop_idle _
  next payload hget =>
    split
    next => exact eq.stop_idle _
    next attrs rest hold =>
      split
      next => exact eq.forceNextSafeAttributes_effect
      next hmatch =>
        split
        next => exact eq.stop_idle _
        next ref href =>
          refine .promoted hold ?_ (.found hget hmatch) ?_ rfl
          · show eq.safeAttributes.tail = rest
            rw [hold, List.tail_cons]
          · exact href

theorem tryNextSafeAttributes_effect :
    SafeEffect codec cfg eng eq (eq.tryNextSafeAttributes codec cfg eng origin) := by
  unfold tryNextSafeAttributes
  split
  next => exact eq.consolidateNextSafeAttributes_effect
  next =>
    split
    next => exact eq.forceNextSafeAttributes_effect
    next => exact .idle rfl rfl rfl

theorem adoptUnsafePayload_effect (first : ExecutionPayload) (ref : L2BlockRef) :
    SafeEffect codec cfg eng eq (eq.adoptUnsafePayload eng first ref) := by
  unfold adoptUnsafePayload
  dsimp only
  split
  next => split <;> exact .idle rfl rfl rfl
  next => exact eq.stop_idle _
  next => split <;> exact .idle rfl rfl rfl

theorem tryNextUnsafePayload_effect :
    SafeEffect codec cfg eng eq (eq.tryNextUnsafePayload codec cfg eng) := by
  unfold tryNextUnsafePayload
  split
  next => exact eq.stop_idle _
  next first rest hfirst =>
    split
    next => exact .idle rfl rfl rfl
    next =>
      split
      next => split <;> exact .idle rfl rfl rfl
      next =>
        split
        next => exact .idle rfl rfl rfl
        next ref href =>
          split
          next => exact eq.stop_idle _
          next => exact eq.adoptUnsafePayload_effect first ref
          next => exact .idle rfl rfl rfl

theorem step_cases {next : Except Error PayloadAttributes} :
    (∃ attrs, next = .ok attrs ∧ eq.safeAttributes = [] ∧
      eq.step codec cfg eng origin next =
        { eq with safeAttributes := [attrs] }.stop (.error .notEnoughData)) ∨
    SafeEffect codec cfg eng eq (eq.step codec cfg eng origin next) := by
  unfold step
  split
  next => exact .inr eq.tryNextSafeAttributes_effect
  next hempty =>
    rw [not_not] at hempty
    split
    next attrs => exact .inl ⟨attrs, rfl, hempty, by rw [hempty, List.nil_append]⟩
    next =>
      split
      next => exact .inr eq.tryNextUnsafePayload_effect
      next => exact .inr (eq.stop_idle _)
    next => exact .inr (eq.stop_idle _)

end EngineQueue

theorem Stages.step_eq {keccak : Bytes → Hash} {inputs : StepInputs} {stages : Stages}
    {asked : Option BatchData × Except Error PayloadAttributes}
    (hasked : nextAttributes keccak codec cfg inputs.dl inputs.prev.nextBatch stages.batch
      stages.queue.safeHead = asked) :
    stages.step keccak codec cfg inputs =
      (if stages.queue.safeAttributes ≠ [] then stages.batch else asked.1,
        stages.queue.step codec cfg inputs.eng inputs.prev.origin asked.2) := by
  subst hasked
  rfl

end Derive
