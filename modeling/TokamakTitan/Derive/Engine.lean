import TokamakTitan.Derive.Attributes

/-! The calls of the node to the execution engine, and the insertion of a block with them. -/
namespace Derive
open Checked

inductive ExecutePayloadStatus where
  | valid
  | invalid
  | syncing
  | accepted
  | invalidBlockHash
  | invalidTerminalBlock
  | other (status : String)
  deriving DecidableEq

abbrev ErrorCode := ℤ

def invalidForkchoiceState : ErrorCode := -38002

def invalidPayloadAttributes : ErrorCode := -38003

/-- A failed call: the engine rejects the input with a code, or the call does not get through. -/
inductive EngineError where
  | input (code : ErrorCode) (err : String)
  | rpc (err : String)
  deriving DecidableEq

inductive QueryError where
  | notFound
  | other (err : String)
  deriving DecidableEq

structure ForkchoiceState where
  headBlockHash : Hash
  safeBlockHash : Hash
  finalizedBlockHash : Hash
  deriving DecidableEq

abbrev PayloadID := BitVec 64

structure ForkchoiceUpdatedResult where
  payloadStatus : ExecutePayloadStatus
  payloadID : Option PayloadID
  deriving DecidableEq

structure EngineAnswers where
  forkchoiceUpdate : ForkchoiceState → Option PayloadAttributes →
    Except EngineError ForkchoiceUpdatedResult
  getPayload : PayloadID → Except EngineError ExecutionPayload
  newPayload : ExecutionPayload → Except EngineError ExecutePayloadStatus
  payloadByNumber : Uint64 → Except QueryError ExecutionPayload

def EngineError.text : EngineError → String
  | .input code err => s!"input error {code}: {err}"
  | .rpc err => err

def forkchoiceUpdateErr : ExecutePayloadStatus → String
  | .syncing => "updated forkchoice, but node is syncing"
  | .accepted => "unexpected ACCEPTED status, could not update forkchoice"
  | .invalidTerminalBlock => "unexpected INVALID_TERMINAL_BLOCK status, could not update forkchoice"
  | .invalidBlockHash => "unexpected INVALID_BLOCK_HASH status, could not update forkchoice"
  | .invalid => "cannot update forkchoice, block is invalid"
  | .valid => ""
  | .other status => s!"unknown forkchoice status: {status}"

def newPayloadErr : ExecutePayloadStatus → String
  | .valid => ""
  | .syncing => "failed to execute payload, node is syncing"
  | .invalid => "execution payload was INVALID! ignoring bad block"
  | .invalidBlockHash => "execution payload has INVALID BLOCKHASH!"
  | .invalidTerminalBlock =>
    "engine is misconfigured. Received invalid-terminal-block error while engine API should be " ++
      "active at genesis."
  | .accepted => "execution payload cannot be validated yet"
  | .other status => s!"unknown execution status: {status}"

inductive BlockInsertionErr where
  | temporary (err : String)
  | prestate (err : String)
  | payload (err : String)
  | panic
  deriving DecidableEq

def isDepositTx : Bytes → Except String Bool
  | [] => .error "empty transaction"
  | type :: _ => .ok (type = depositTxType)

/-- The walk over the deposits at the start, at index `i` after a deposit at `last`. -/
def lastDepositFrom (last i : ℕ) : List Bytes → Except String ℕ
  | [] => .ok last
  | tx :: txns =>
    match isDepositTx tx with
    | .error _ => .error s!"invalid transaction at idx {i}"
    | .ok true => lastDepositFrom i (i + 1) txns
    | .ok false => .ok last

def lastDeposit (txns : List Bytes) : Except String ℕ := lastDepositFrom 0 0 txns

def noDepositFrom (last i : ℕ) : List Bytes → Except String Unit
  | [] => .ok ()
  | tx :: txns =>
    match isDepositTx tx with
    | .error err => .error s!"failed to decode transaction idx {i}: {err}"
    | .ok true =>
      .error s!"deposit tx ({i}) after other tx in l2 block with prev deposit at idx {last}"
    | .ok false => noDepositFrom last (i + 1) txns

/-- The deposits come first. The type of the first transaction is read without a check of its
length. -/
def sanityCheckPayload (payload : ExecutionPayload) : Except BlockInsertionErr Unit :=
  match payload.transactions with
  | [] => .error (.payload "no transactions in returned payload")
  | [] :: _ => .error .panic
  | (type :: _) :: _ =>
    if type ≠ depositTxType then
      .error (.payload s!"first transaction was not deposit tx. Got {type}")
    else match lastDeposit payload.transactions with
      | .error err => .error (.payload s!"failed to find last deposit: {err}")
      | .ok last =>
        match noDepositFrom last (last + 1) (payload.transactions.drop (last + 1)) with
        | .error err => .error (.payload err)
        | .ok () => .ok ()

section Insert

variable (eng : EngineAnswers) (fc : ForkchoiceState) (attrs : PayloadAttributes)

def startPayload : Except BlockInsertionErr PayloadID :=
  match eng.forkchoiceUpdate fc (some attrs) with
  | .error (.rpc err) =>
    .error (.temporary s!"failed to create new block via forkchoice: {err}")
  | .error (.input code err) =>
    if code = invalidForkchoiceState then
      .error (.prestate ("pre-block-creation forkchoice update was inconsistent with engine, " ++
        s!"need reset to resolve: {err}"))
    else if code = invalidPayloadAttributes then
      .error (.payload s!"payload attributes are not valid, cannot build block: {err}")
    else .error (.prestate ("unexpected error code in forkchoice-updated response: " ++
      (EngineError.input code err).text))
  | .ok fcRes =>
    match fcRes.payloadStatus with
    | .invalid => .error (.payload (forkchoiceUpdateErr .invalid))
    | .invalidBlockHash => .error (.payload (forkchoiceUpdateErr .invalidBlockHash))
    | .valid =>
      match fcRes.payloadID with
      | none => .error (.temporary "nil id in forkchoice result when expecting a valid ID")
      | some id => .ok id
    | status => .error (.temporary (forkchoiceUpdateErr status))

def retrievePayload (id : PayloadID) : Except BlockInsertionErr ExecutionPayload :=
  match eng.getPayload id with
  | .error err => .error (.temporary s!"failed to get execution payload: {err.text}")
  | .ok payload => .ok payload

def executePayload (payload : ExecutionPayload) : Except BlockInsertionErr Unit :=
  match eng.newPayload payload with
  | .error err => .error (.temporary s!"failed to insert execution payload: {err.text}")
  | .ok .valid => .ok ()
  | .ok .invalid => .error (.payload (newPayloadErr .invalid))
  | .ok .invalidBlockHash => .error (.payload (newPayloadErr .invalidBlockHash))
  | .ok status => .error (.temporary (newPayloadErr status))

def makeCanonical : Except BlockInsertionErr Unit :=
  match eng.forkchoiceUpdate fc none with
  | .error (.rpc err) =>
    .error (.temporary s!"failed to make the new L2 block canonical via forkchoice: {err}")
  | .error (.input code err) =>
    if code = invalidForkchoiceState then
      .error (.payload ("post-block-creation forkchoice update was inconsistent with engine, " ++
        s!"need reset to resolve: {err}"))
    else .error (.prestate ("unexpected error code in forkchoice-updated response: " ++
      (EngineError.input code err).text))
  | .ok fcRes =>
    if fcRes.payloadStatus = .valid then .ok ()
    else .error (.payload (forkchoiceUpdateErr fcRes.payloadStatus))

def insertHeadBlock (updateSafe : Bool) : Except BlockInsertionErr ExecutionPayload := do
  let id ← startPayload eng fc attrs
  let payload ← retrievePayload eng id
  sanityCheckPayload payload
  executePayload eng payload
  makeCanonical eng { fc with
    headBlockHash := payload.blockHash
    safeBlockHash := if updateSafe then payload.blockHash else fc.safeBlockHash }
  return payload

end Insert

/-- A payload built without the transaction pool has exactly the requested transactions, and the
genesis block has none. -/
structure EngineAnswers.Exact (eng : EngineAnswers) (genesis : Genesis) : Prop where
  built : ∀ {fc attrs fcRes id payload}, eng.forkchoiceUpdate fc (some attrs) = .ok fcRes →
    fcRes.payloadID = some id → eng.getPayload id = .ok payload → attrs.noTxPool = true →
    payload.transactions = attrs.transactions
  genesis_built : ∀ {id payload}, eng.getPayload id = .ok payload →
    payload.blockHash = genesis.l2.hash → payload.transactions = []
  genesis_found : ∀ {number payload}, eng.payloadByNumber number = .ok payload →
    payload.blockHash = genesis.l2.hash → payload.transactions = []

variable {attrs : PayloadAttributes} {fc : ForkchoiceState} {eng : EngineAnswers} {id : PayloadID}

theorem startPayload_eq_ok (h : startPayload eng fc attrs = .ok id) :
    ∃ fcRes, eng.forkchoiceUpdate fc (some attrs) = .ok fcRes ∧
      fcRes.payloadStatus = .valid ∧ fcRes.payloadID = some id := by
  unfold startPayload at h
  split at h
  next => cases h
  next =>
    split at h
    · cases h
    · split at h <;> cases h
  next fcRes hfc =>
    split at h
    next => cases h
    next => cases h
    next hvalid =>
      split at h
      next => cases h
      next found hid =>
        cases h
        exact ⟨fcRes, hfc, hvalid, hid⟩
    next => cases h

variable {payload : ExecutionPayload}

theorem retrievePayload_eq_ok (h : retrievePayload eng id = .ok payload) :
    eng.getPayload id = .ok payload := by
  unfold retrievePayload at h
  split at h
  next => cases h
  next found hget =>
    cases h
    exact hget

theorem executePayload_eq_ok {u : Unit} (h : executePayload eng payload = .ok u) :
    eng.newPayload payload = .ok .valid := by
  unfold executePayload at h
  split at h
  next => cases h
  next hvalid => exact hvalid
  next => cases h
  next => cases h
  next => cases h

theorem insertHeadBlock_eq_ok {updateSafe : Bool}
    (h : insertHeadBlock eng fc attrs updateSafe = .ok payload) :
    ∃ fcRes id, eng.forkchoiceUpdate fc (some attrs) = .ok fcRes ∧ fcRes.payloadID = some id ∧
      eng.getPayload id = .ok payload ∧ eng.newPayload payload = .ok .valid := by
  unfold insertHeadBlock at h
  simp only [bind_eq_ok, pure_eq_ok] at h
  obtain ⟨id, hstart, built, hget, ⟨⟩, -, ⟨⟩, hexec, ⟨⟩, -, rfl⟩ := h
  obtain ⟨fcRes, hfc, -, hid⟩ := startPayload_eq_ok hstart
  exact ⟨fcRes, id, hfc, hid, retrievePayload_eq_ok hget, executePayload_eq_ok hexec⟩

end Derive
