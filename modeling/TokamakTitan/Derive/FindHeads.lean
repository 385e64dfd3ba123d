import TokamakTitan.Derive.Engine

/-! Where the derivation starts: the walk back from the unsafe head to the heads that are consistent
with the L1 chain. -/
namespace Derive

inductive BlockLabel where
  | latest
  | safe
  | finalized
  deriving DecidableEq

structure L2Source where
  byHash : Hash → Except QueryError L2BlockRef
  byLabel : BlockLabel → Except QueryError L2BlockRef

abbrev L1Source := Uint64 → Except QueryError L1BlockRef

def QueryError.text : QueryError → String
  | .notFound => "not found"
  | .other err => err

inductive SyncError where
  | reorgFinalized
  | wrongChain (what : String)
  | tooDeepReorg
  | failed (err : String)
  | endless
  deriving DecidableEq

def maxReorgSeqWindows : Uint64 := 5

structure FindHeadsResult where
  unsafeHead : L2BlockRef
  safeHead : L2BlockRef
  finalized : L2BlockRef
  deriving DecidableEq

def L2BlockRef.zero : L2BlockRef where
  hash := 0
  number := 0
  parentHash := 0
  time := 0
  l1Origin := ⟨0, 0⟩
  sequenceNumber := 0

variable (cfg : Config) (l1 : L1Source) (l2 : L2Source)

def currentFinalized : Except SyncError L2BlockRef :=
  let answer := match l2.byLabel .finalized with
    | .error .notFound => l2.byHash cfg.genesis.l2.hash
    | answer => answer
  match answer with
  | .error err => .error (.failed s!"failed to find the finalized L2 block: {err.text}")
  | .ok finalized => .ok finalized

def currentSafe (finalized : L2BlockRef) : Except SyncError L2BlockRef :=
  match l2.byLabel .safe with
  | .error .notFound => .ok finalized
  | .error (.other err) => .error (.failed s!"failed to find the safe L2 block: {err}")
  | .ok safe => .ok safe

def currentHeads : Except SyncError FindHeadsResult := do
  let finalized ← currentFinalized cfg l2
  let safeHead ← currentSafe l2 finalized
  match l2.byLabel .latest with
  | .error err => .error (.failed s!"failed to find the L2 head block: {err.text}")
  | .ok unsafeHead => .ok { unsafeHead, safeHead, finalized }

/-- `l1Block` is the L1 block at the height of the L1 origin of `n`, and `ahead` says that there is
none yet. -/
structure HeadsWalk where
  result : FindHeadsResult
  n : L2BlockRef
  highestL2WithCanonicalL1Origin : L2BlockRef
  l1Block : L1BlockRef
  ahead : Bool
  deriving DecidableEq

namespace HeadsWalk

variable (prevUnsafe : L2BlockRef) (w : HeadsWalk)

def lookup : Except SyncError HeadsWalk :=
  if w.l1Block = L1BlockRef.zero ∨ w.n.l1Origin.hash ≠ w.l1Block.hash then
    match l1 w.n.l1Origin.number with
    | .ok b => .ok { w with l1Block := b, ahead := false }
    | .error .notFound => .ok { w with l1Block := L1BlockRef.zero, ahead := true }
    | .error (.other err) =>
      .error (.failed s!"failed to retrieve block from L1 for comparison: {err}")
  else .ok w

def check : Except SyncError Unit :=
  if w.n.number = cfg.genesis.l2.number ∧ w.n.hash ≠ cfg.genesis.l2.hash then
    .error (.wrongChain "L2")
  else if w.n.number = cfg.genesis.l2.number ∧ w.ahead = false ∧
      w.l1Block.hash ≠ cfg.genesis.l1.hash then
    .error (.wrongChain "L1")
  else if w.n.number = w.result.finalized.number ∧ w.n.hash ≠ w.result.finalized.hash then
    .error .reorgFinalized
  else if w.n.l1Origin.number + maxReorgSeqWindows * cfg.seqWindowSize <
      prevUnsafe.l1Origin.number then
    .error .tooDeepReorg
  else .ok ()

/-- The current block is the unsafe head if there is none, and its L1 origin is judged. -/
def judge : HeadsWalk :=
  let unsafeHead := if w.result.unsafeHead = L2BlockRef.zero then w.n else w.result.unsafeHead
  if w.ahead then { w with result := { w.result with unsafeHead } }
  else if w.l1Block.hash = w.n.l1Origin.hash then
    { w with
      result := { w.result with unsafeHead }
      highestL2WithCanonicalL1Origin :=
        if w.highestL2WithCanonicalL1Origin = L2BlockRef.zero then w.n
        else w.highestL2WithCanonicalL1Origin }
  else
    { w with
      result := { w.result with unsafeHead := L2BlockRef.zero }
      highestL2WithCanonicalL1Origin := L2BlockRef.zero }

def ready : Bool :=
  w.n.number ≤ w.result.safeHead.number ∧
    w.n.l1Origin.number + cfg.seqWindowSize < w.highestL2WithCanonicalL1Origin.l1Origin.number ∧
    w.n.sequenceNumber = 0

def checkParent (parent : L2BlockRef) : Except SyncError Unit :=
  if parent.l1Origin ≠ w.n.l1Origin then
    if parent.l1Origin.number + 1 ≠ w.n.l1Origin.number then
      .error (.failed "l2 parent has L1 origin that is not before")
    else if w.n.sequenceNumber ≠ 0 then
      .error (.failed "l2 block has parent with different L1 origin, but non-zero sequence number")
    else if w.l1Block.hash = w.n.l1Origin.hash ∧ w.l1Block.parentHash ≠ parent.l1Origin.hash then
      .error (.failed "parent L2 block has unexpected origin")
    else .ok ()
  else if parent.sequenceNumber + 1 ≠ w.n.sequenceNumber then
    .error (.failed "sequence number inconsistency between l2 blocks")
  else .ok ()

def parent : Except SyncError L2BlockRef :=
  match l2.byHash w.n.parentHash with
  | .error err => .error (.failed s!"failed to fetch L2 block by hash: {err.text}")
  | .ok parent => .ok parent

def settle (safeHead : L2BlockRef) : FindHeadsResult := { w.result with safeHead }

end HeadsWalk

def findL2HeadsFrom (prevUnsafe : L2BlockRef) : ℕ → HeadsWalk → Except SyncError FindHeadsResult
  | 0, _ => .error .endless
  | fuel + 1, w => do
    let w ← w.lookup l1
    w.check cfg prevUnsafe
    let w := w.judge
    if w.n.number = w.result.finalized.number then .ok (w.settle w.n)
    else do
      let parent ← w.parent l2
      w.checkParent parent
      if w.ready cfg then .ok (w.settle parent)
      else findL2HeadsFrom prevUnsafe fuel { w with n := parent }

def findL2Heads : Except SyncError FindHeadsResult :=
  match currentHeads cfg l2 with
  | .error err => .error err
  | .ok heads =>
    findL2HeadsFrom cfg l1 l2 heads.unsafeHead (heads.unsafeHead.number.toNat + 1)
      { result := heads
        n := heads.unsafeHead
        highestL2WithCanonicalL1Origin := L2BlockRef.zero
        l1Block := L1BlockRef.zero
        ahead := false }

end Derive
