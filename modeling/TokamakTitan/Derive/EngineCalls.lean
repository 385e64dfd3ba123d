import TokamakTitan.Derive.EngineQueue

/-! The calls of a step to the engine. -/
namespace Derive
open Checked

inductive EngineCall where
  | forkchoiceUpdate (fc : ForkchoiceState) (attrs : Option PayloadAttributes)
  | getPayload (id : PayloadID)
  | newPayload (payload : ExecutionPayload)
  | payloadByNumber (number : Uint64)
  deriving DecidableEq

def ForkchoiceState.insert (fc : ForkchoiceState) (payload : ExecutionPayload)
    (updateSafe : Bool) : ForkchoiceState :=
  { fc with
    headBlockHash := payload.blockHash
    safeBlockHash := if updateSafe then payload.blockHash else fc.safeBlockHash }

section Calls

variable (codec : TxCodec) (cfg : Config) (eng : EngineAnswers)

def insertCalls (fc : ForkchoiceState) (attrs : PayloadAttributes) (updateSafe : Bool) :
    List EngineCall :=
  .forkchoiceUpdate fc (some attrs) ::
    match startPayload eng fc attrs with
    | .error _ => []
    | .ok id =>
      .getPayload id ::
        match retrievePayload eng id with
        | .error _ => []
        | .ok payload =>
          match sanityCheckPayload payload with
          | .error _ => []
          | .ok () =>
            .newPayload payload ::
              match executePayload eng payload with
              | .error _ => []
              | .ok () => [.forkchoiceUpdate (fc.insert payload updateSafe) none]

namespace EngineQueue

variable (eq : EngineQueue)

def safeForkchoice : ForkchoiceState where
  headBlockHash := eq.safeHead.hash
  safeBlockHash := eq.safeHead.hash
  finalizedBlockHash := eq.finalized.hash

def unsafeForkchoice (first : ExecutionPayload) : ForkchoiceState where
  headBlockHash := first.blockHash
  safeBlockHash := eq.safeHead.hash
  finalizedBlockHash := eq.finalized.hash

def forceCalls : List EngineCall :=
  match eq.safeAttributes with
  | [] => []
  | attrs :: _ => insertCalls eng eq.safeForkchoice attrs true

def consolidateCalls : List EngineCall :=
  .payloadByNumber (eq.safeHead.number + 1) ::
    match eng.payloadByNumber (eq.safeHead.number + 1) with
    | .error _ => []
    | .ok payload =>
      match eq.safeAttributes with
      | [] => []
      | attrs :: _ =>
        match attributesMatchBlock attrs eq.safeHead.hash payload with
        | .error _ => eq.forceCalls eng
        | .ok () => []

def safeCalls : List EngineCall :=
  if eq.safeHead.number < eq.unsafeHead.number then eq.consolidateCalls eng
  else if eq.safeHead.number = eq.unsafeHead.number then eq.forceCalls eng
  else []

def unsafeCalls : List EngineCall :=
  match eq.unsafePayloads with
  | [] => []
  | first :: _ =>
    if first.blockNumber ≤ eq.safeHead.number then []
    else if first.parentHash ≠ eq.unsafeHead.hash then []
    else match payloadToBlockRef codec first cfg.genesis with
      | .error _ => []
      | .ok _ =>
        .newPayload first ::
          match eng.newPayload first with
          | .ok .valid => [.forkchoiceUpdate (eq.unsafeForkchoice first) none]
          | _ => []

def calls (next : Except Error PayloadAttributes) (eq : EngineQueue) : List EngineCall :=
  if eq.safeAttributes ≠ [] then eq.safeCalls eng
  else
    match next with
    | .error .eof => if eq.unsafePayloads ≠ [] then eq.unsafeCalls codec cfg eng else []
    | _ => []

end EngineQueue

end Calls

variable {codec : TxCodec} {cfg : Config} {eng : EngineAnswers} {fc : ForkchoiceState}
  {attrs : PayloadAttributes}

theorem attributes_of_mem_insertCalls {fc' : ForkchoiceState} {attrs' : PayloadAttributes}
    {updateSafe : Bool}
    (h : .forkchoiceUpdate fc (some attrs) ∈ insertCalls eng fc' attrs' updateSafe) :
    attrs = attrs' := by
  unfold insertCalls at h
  repeat' split at h
  all_goals simp at h
  all_goals exact h.2

namespace EngineQueue

variable {eq : EngineQueue}

theorem mem_safeAttributes_of_mem_forceCalls
    (h : .forkchoiceUpdate fc (some attrs) ∈ eq.forceCalls eng) : attrs ∈ eq.safeAttributes := by
  unfold forceCalls at h
  split at h
  next => cases h
  next first rest hold =>
    rw [hold, attributes_of_mem_insertCalls h]
    exact List.mem_cons_self

theorem mem_safeAttributes_of_mem_consolidateCalls
    (h : .forkchoiceUpdate fc (some attrs) ∈ eq.consolidateCalls eng) :
    attrs ∈ eq.safeAttributes := by
  unfold consolidateCalls at h
  simp only [List.mem_cons, reduceCtorEq, false_or] at h
  split at h
  next => cases h
  next =>
    split at h
    next => cases h
    next =>
      split at h
      next => exact mem_safeAttributes_of_mem_forceCalls h
      next => cases h

theorem mem_safeAttributes_of_mem_safeCalls
    (h : .forkchoiceUpdate fc (some attrs) ∈ eq.safeCalls eng) : attrs ∈ eq.safeAttributes := by
  unfold safeCalls at h
  split at h
  next => exact mem_safeAttributes_of_mem_consolidateCalls h
  next =>
    split at h
    next => exact mem_safeAttributes_of_mem_forceCalls h
    next => cases h

/-- The engine is asked to build from waiting attributes only. -/
theorem mem_safeAttributes_of_mem_calls {next : Except Error PayloadAttributes}
    (h : .forkchoiceUpdate fc (some attrs) ∈ eq.calls codec cfg eng next) :
    attrs ∈ eq.safeAttributes := by
  unfold calls unsafeCalls at h
  split at h
  next => exact mem_safeAttributes_of_mem_safeCalls h
  next =>
    repeat' split at h
    all_goals simp at h

end EngineQueue

end Derive
