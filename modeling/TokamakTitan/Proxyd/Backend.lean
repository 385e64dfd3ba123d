import TokamakTitan.Library.Checked
import TokamakTitan.Library.KeySort
import TokamakTitan.Proxyd.Rpc

/-! Forwarding a batch of requests to the backends of a group. A reply is given by its HTTP status
and by what its body decodes to. -/
namespace Proxyd
open KeySort (Sorter)

/-- `compact` as `json.Marshal` applies it to raw messages: angle brackets, the ampersand and the
two line separators of Unicode become escape sequences. -/
def escapeHTML : RawMessage → RawMessage
  | 0xE2 :: 0x80 :: 0xA8 :: rest => 92 :: 117 :: 50 :: 48 :: 50 :: 56 :: escapeHTML rest
  | 0xE2 :: 0x80 :: 0xA9 :: rest => 92 :: 117 :: 50 :: 48 :: 50 :: 57 :: escapeHTML rest
  | 0x3C :: rest => 92 :: 117 :: 48 :: 48 :: 51 :: 99 :: escapeHTML rest
  | 0x3E :: rest => 92 :: 117 :: 48 :: 48 :: 51 :: 101 :: escapeHTML rest
  | 0x26 :: rest => 92 :: 117 :: 48 :: 48 :: 50 :: 54 :: escapeHTML rest
  | c :: rest => c :: escapeHTML rest
  | [] => []

def wire (req : RPCReq) : RPCReq := { req with id := escapeHTML req.id }

example : escapeHTML [34, 60, 97, 34] = [34, 92, 117, 48, 48, 51, 99, 97, 34] := by decide

/-- An element of a JSON array, by what it decodes to: `null` to no response, an object with the
fields of a response to it, and anything else to an error. -/
inductive Elem where
  | null
  | object (res : RPCRes)
  | other

inductive Body where
  | null
  | object (res : RPCRes)
  | array (elems : List Elem)
  | other

def Body.single : Body → Option RPCRes
  | .null => some { jsonrpc := "", id := [] }
  | .object res => some res
  | _ => none

def Elem.decode : Elem → Option (Option RPCRes)
  | .null => some none
  | .object res => some (some res)
  | .other => none

def Body.batch : Body → Option (List (Option RPCRes))
  | .null => some []
  | .array elems => elems.mapM Elem.decode
  | _ => none

inductive Attempt where
  | failed
  | reply (status : ℕ) (body : Body)

inductive ForwardErr where
  | request
  | responseCode (status : ℕ)
  | badResponse
  | unexpectedJSONRPC
  | offline
  | permanent
  | noBackends
  deriving DecidableEq

inductive Fault where
  | panic
  | err (e : ForwardErr)
  deriving DecidableEq

/-- The place of an ID in the map that the sort reads; a missing one reads as zero. -/
def pos (ids : List RawMessage) (id : RawMessage) : ℕ := if id ∈ ids then ids.idxOf id else 0

/-- A comparison reads the IDs of both elements, so that with two or more a missing one is
dereferenced. -/
def sortBatchRPCResponse (sorter : Sorter RPCRes) (req : List RPCReq) (res : List (Option RPCRes)) :
    Except Fault (List RPCRes) :=
  let ids := req.map RPCReq.id
  if ¬ ids.Nodup then .error .panic
  else
    match res.mapM id with
    | some res => .ok (sorter.sort (fun r => pos ids r.id) res)
    | none => .error .panic

def captureStatus (status : ℕ) : Option RPCRes → Except Fault (Option RPCRes)
  | some r =>
    match r.error with
    | some e => .ok (some { r with error := some { e with httpErrorCode := status } })
    | none => .error .panic
  | none => .error .panic

def captureStatuses (status : ℕ) (res : List (Option RPCRes)) :
    Except Fault (List (Option RPCRes)) :=
  if status = 200 then .ok res else res.mapM (captureStatus status)

def unmarshalReply (rpcReqs : List RPCReq) (body : Body) : Except Fault (List (Option RPCRes)) :=
  if rpcReqs.length = 1 then
    match body.single with
    | some res => .ok [some res]
    | none => .error (.err .badResponse)
  else
    match body.batch with
    | some res => .ok res
    | none => if body.single.isSome then .error (.err .unexpectedJSONRPC)
      else .error (.err .badResponse)

def doForward (sorter : Sorter RPCRes) (rpcReqs : List RPCReq) :
    Attempt → Except Fault (List RPCRes)
  | .failed => .error (.err .request)
  | .reply status body =>
    if status ≠ 200 ∧ status ≠ 400 then .error (.err (.responseCode status))
    else do
      let res ← unmarshalReply rpcReqs body
      if rpcReqs.length ≠ res.length then .error (.err .unexpectedJSONRPC)
      else do
        let res ← captureStatuses status res
        sortBatchRPCResponse sorter rpcReqs res

structure BackendRun where
  online : Bool
  attempts : List Attempt

/-- The attempts in order, with the number of those made. An unexpected response ends them. -/
def retry (sorter : Sorter RPCRes) (reqs : List RPCReq) :
    List Attempt → Except Fault (List RPCRes) × ℕ
  | [] => (.error (.err .permanent), 0)
  | attempt :: rest =>
    match doForward sorter reqs attempt with
    | .ok res => (.ok res, 1)
    | .error .panic => (.error .panic, 1)
    | .error (.err .unexpectedJSONRPC) => (.error (.err .unexpectedJSONRPC), 1)
    | .error (.err _) =>
      let (res, sends) := retry sorter reqs rest
      (res, sends + 1)

def BackendRun.forward (sorter : Sorter RPCRes) (reqs : List RPCReq) (b : BackendRun) :
    Except Fault (List RPCRes) × ℕ :=
  if b.online then retry sorter reqs b.attempts else (.error (.err .offline), 0)

/-- The first backend that gives responses. What the call sent is counted over all backends. -/
def groupForward (sorter : Sorter RPCRes) (rpcReqs : List RPCReq) :
    List BackendRun → Except Fault (List RPCRes) × ℕ
  | [] => (.error (.err .noBackends), 0)
  | back :: rest =>
    match back.forward sorter rpcReqs with
    | (.ok res, sends) => (.ok res, sends)
    | (.error .panic, sends) => (.error .panic, sends)
    | (.error (.err _), sends) =>
      let (res, more) := groupForward sorter rpcReqs rest
      (res, sends + more)

end Proxyd
