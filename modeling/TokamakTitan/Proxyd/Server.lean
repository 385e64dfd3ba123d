import TokamakTitan.Proxyd.Backend
import TokamakTitan.Proxyd.Methods

/-! The handling of a batch: each request is checked, those that pass are sorted into groups without
repeated IDs, looked up in the cache and forwarded in minibatches. What the proxy does not decide is
given by an environment. -/
namespace Proxyd
open KeySort (Sorter)

def isValidID (id : RawMessage) : Bool :=
  if id.head? = some 34 ∧ id.getLast? = some 34 then 2 < id.length
  else
    match id with
    | [] => false
    | c :: _ => c ≠ 123 ∧ c ≠ 91

def validateRPCReq (req : RPCReq) : Option RPCErr :=
  if req.jsonrpc ≠ jsonrpcVersion then some (errInvalidRequest "invalid JSON-RPC version")
  else if req.method = "" then some (errInvalidRequest "no method specified")
  else if isValidID req.id = false then some (errInvalidRequest "invalid ID")
  else none

def newRPCErrorRes (id : RawMessage) (err : RPCErr) : RPCRes := {
  jsonrpc := jsonrpcVersion, error := some err, id }

def newRPCRes (id : RawMessage) (result : Json) : RPCRes := {
  jsonrpc := jsonrpcVersion, result, id }

structure BatchElem where
  req : RPCReq
  index : ℕ

structure BatchGroup where
  groupID : ℕ
  backendGroup : String
  deriving DecidableEq

structure ServerConfig where
  rpcMethodMappings : String → String
  overrideLims : String → Bool
  senderLim : Bool
  maxUpstreamBatchSize : ℕ

/-- The outcomes of the rate limits and of decoding transactions, the order in which a map is
walked, the cache when a request is looked up, when the deadline has passed, how replies are sorted,
and what the backends of a group do with a call. -/
structure Env where
  limited : ℕ → Bool
  decodeTx : Text → Except String Text
  takeSender : ℕ → Text → Option Bool
  order : List BatchGroup → List BatchGroup
  order_perm : ∀ keys, (order keys).Perm keys
  cache : ℕ → RPCCache
  expired : ℕ → Bool
  sorter : ℕ → Sorter RPCRes
  upstream : ℕ → String → List RPCReq → List BackendRun

def unmarshalStrings (params : Option Json) : Option (List Text) :=
  match params with
  | some (.arr list) => list.mapM fun
    | .str s => some s
    | .null => some []
    | _ => none
  | some .null => some []
  | _ => none

def rateLimitSender (env : Env) (i : ℕ) (req : RPCReq) : Option RPCErr :=
  match unmarshalStrings req.params with
  | none => some errParseErr
  | some [data] =>
    match env.decodeTx data with
    | .error msg => some (errInvalidParams msg)
    | .ok key =>
      match env.takeSender i key with
      | none => some errInternal
      | some true => none
      | some false => some errOverSenderRateLimit
  | some _ => some (errInvalidParams "missing value for required argument 0")

/-- The checks on request `i`: its response if it is answered at once, and otherwise the request
with its backend group. -/
def precheck (cfg : ServerConfig) (env : Env) (i : ℕ) :
    Option RPCReq → Except RPCRes (RPCReq × String)
  | none => .error (newRPCErrorRes [] errParseErr)
  | some req =>
    match validateRPCReq req with
    | some err => .error (newRPCErrorRes [] err)
    | none =>
      if req.method = "eth_accounts" then .error (newRPCRes req.id (.arr []))
      else if cfg.rpcMethodMappings req.method = "" then
        .error (newRPCErrorRes req.id errMethodNotWhitelisted)
      else if cfg.overrideLims req.method = true ∧ env.limited i = true then
        .error (newRPCErrorRes req.id errOverRateLimit)
      else if req.method = "eth_sendRawTransaction" ∧ cfg.senderLim = true then
        match rateLimitSender env i req with
        | some err => .error (newRPCErrorRes req.id err)
        | none => .ok (req, cfg.rpcMethodMappings req.method)
      else .ok (req, cfg.rpcMethodMappings req.method)

structure Intake where
  responses : ℕ → Option RPCRes
  ids : RawMessage → ℕ
  keys : List BatchGroup
  batches : BatchGroup → List BatchElem

def Intake.empty : Intake := {
  responses := fun _ => none, ids := fun _ => 0, keys := [], batches := fun _ => [] }

/-- A request goes to the group that is numbered by how often its ID has come up. -/
def Intake.push (t : Intake) (i : ℕ) (req : RPCReq) (group : String) : Intake :=
  let groupID := t.ids req.id + 1
  let key : BatchGroup := ⟨groupID, group⟩
  { t with
    ids := Function.update t.ids req.id groupID
    keys := if key ∈ t.keys then t.keys else t.keys ++ [key]
    batches := Function.update t.batches key (t.batches key ++ [⟨req, i⟩]) }

def Intake.add (cfg : ServerConfig) (env : Env) (t : Intake) (i : ℕ) (raw : Option RPCReq) :
    Intake :=
  match precheck cfg env i raw with
  | .error res => { t with responses := Function.update t.responses i (some res) }
  | .ok (req, group) => t.push i req group

def intake (cfg : ServerConfig) (env : Env) : ℕ → Intake → List (Option RPCReq) → Intake
  | _, t, [] => t
  | i, t, raw :: rest => intake cfg env (i + 1) (t.add cfg env i raw) rest

structure Forwarded where
  call : ℕ
  backendGroup : String
  elems : List BatchElem
  res : List RPCRes
  sends : ℕ

structure Progress where
  responses : ℕ → Option RPCRes
  cached : Bool
  log : List Forwarded

def Env.lookup (env : Env) (e : BatchElem) : Option RPCRes :=
  match (env.cache e.index).getRPC e.req with
  | .ok res => res
  | .error _ => none

def takeCached (env : Env) (p : Progress) : List BatchElem → Progress
  | [] => p
  | e :: rest =>
    match env.lookup e with
    | some res =>
      takeCached env
        { p with responses := Function.update p.responses e.index (some res), cached := true } rest
    | none => takeCached env p rest

def Env.misses (env : Env) (batch : List BatchElem) : List BatchElem :=
  batch.filter fun e => (env.lookup e).isNone

def minibatches (size : ℕ) (elems : List BatchElem) : List (List BatchElem) :=
  (List.range ((elems.length + size - 1) / size)).map fun i => (elems.drop (i * size)).take size

def scatter (r : ℕ → Option RPCRes) : List BatchElem → List RPCRes → ℕ → Option RPCRes
  | e :: elems, x :: res => scatter (Function.update r e.index (some x)) elems res
  | _, _ => r

inductive Abort where
  | deadlineExceeded
  | panic
  deriving DecidableEq

def forwardBatch (env : Env) (group : String) (p : Progress) (elems : List BatchElem) :
    Except Abort Progress :=
  let call := p.log.length
  let reqs := elems.map BatchElem.req
  let record (res : List RPCRes) (sends : ℕ) : Progress := { p with
    responses := scatter p.responses elems res
    log := p.log ++ [⟨call, group, elems, res, sends⟩] }
  if env.expired call then .error .deadlineExceeded
  else
    match groupForward (env.sorter call) reqs (env.upstream call group (reqs.map wire)) with
    | (.ok res, sends) => .ok (record res sends)
    | (.error .panic, _) => .error .panic
    | (.error (.err _), sends) =>
      .ok (record (elems.map fun e => newRPCErrorRes e.req.id errNoBackends) sends)

def forwardBatches (env : Env) (group : String) (p : Progress) :
    List (List BatchElem) → Except Abort Progress
  | [] => .ok p
  | elems :: rest => do
    let p ← forwardBatch env group p elems
    forwardBatches env group p rest

def serveGroups (cfg : ServerConfig) (env : Env) (t : Intake) (p : Progress) :
    List BatchGroup → Except Abort Progress
  | [] => .ok p
  | g :: rest => do
    let batch := t.batches g
    let p ← forwardBatches env g.backendGroup (takeCached env p batch)
      (minibatches cfg.maxUpstreamBatchSize (env.misses batch))
    serveGroups cfg env t p rest

structure Outcome where
  responses : List (Option RPCRes)
  cached : Bool
  log : List Forwarded

def handleBatchRPC (cfg : ServerConfig) (env : Env) (reqs : List (Option RPCReq)) :
    Except Abort Outcome := do
  let t := intake cfg env 0 .empty reqs
  let p ← serveGroups cfg env t ⟨t.responses, false, []⟩ (env.order t.keys)
  .ok ⟨(List.range reqs.length).map p.responses, p.cached, p.log⟩

def Outcome.sent (out : Outcome) : List (List BatchElem) :=
  out.log.flatMap fun f => List.replicate f.sends f.elems

end Proxyd
