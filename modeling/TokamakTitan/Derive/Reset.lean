import TokamakTitan.Derive.EngineQueue
import TokamakTitan.Derive.FindHeads

/-! The reset of the engine queue to the heads that the walk over the L2 chain finds. -/
namespace Derive

def SyncError.text : SyncError → String
  | .reorgFinalized => "cannot reorg finalized block"
  | .wrongChain what => s!"wrong chain {what}"
  | .tooDeepReorg => "reorg is too deep"
  | .failed err => err
  | .endless => "endless"

def pipelineNumber (cfg : Config) (l1Origin : Uint64) : Uint64 :=
  if l1Origin < cfg.channelTimeout then 0 else l1Origin - cfg.channelTimeout

structure ResetAnswers where
  l1 : L1Source
  l1ByHash : Hash → Except QueryError L1BlockRef
  l2 : L2Source

namespace EngineQueue

def setHeads (eq : EngineQueue) (heads : FindHeadsResult) : EngineQueue :=
  { eq with
    finalized := heads.finalized
    safeHead := heads.safeHead
    unsafeHead := heads.unsafeHead
    finalityData := [] }

def resetPoint (cfg : Config) (answers : ResetAnswers) :
    Except Error (FindHeadsResult × L1BlockRef) :=
  match findL2Heads cfg answers.l1 answers.l2 with
  | .error err =>
    .error (.temporary s!"failed to find the L2 Heads to start from: {err.text}")
  | .ok heads =>
    match answers.l1ByHash heads.safeHead.l1Origin.hash with
    | .error err => .error (.temporary s!"failed to fetch the new L1 progress: {err.text}")
    | .ok l1Origin =>
      if heads.safeHead.time < l1Origin.time then
        .error (.reset ("cannot reset block derivation to start at L2 block older than its " ++
          "L1 origin, time invariant is broken"))
      else match answers.l1 (pipelineNumber cfg l1Origin.number) with
        | .error err => .error (.temporary s!"failed to fetch the new L1 progress: {err.text}")
        | .ok pipelineOrigin => .ok (heads, pipelineOrigin)

def resetStep (cfg : Config) (answers : ResetAnswers) (eq : EngineQueue) :
    EngineQueue × Except Error L1BlockRef :=
  match resetPoint cfg answers with
  | .error err => (eq, .error err)
  | .ok (heads, pipelineOrigin) => (eq.setHeads heads, .ok pipelineOrigin)

theorem resetPoint_eq_ok {cfg : Config} {answers : ResetAnswers} {heads : FindHeadsResult}
    {origin : L1BlockRef} (h : resetPoint cfg answers = .ok (heads, origin)) :
    findL2Heads cfg answers.l1 answers.l2 = .ok heads := by
  unfold resetPoint at h
  split at h
  next => cases h
  next found hfound =>
    split at h
    next => cases h
    next =>
      split at h
      next => cases h
      next =>
        split at h
        next => cases h
        next =>
          cases h
          exact hfound

end EngineQueue

end Derive
