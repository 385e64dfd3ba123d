import TokamakTitan.Library.Checked
import TokamakTitan.Library.Hex
import TokamakTitan.Proxyd.Rpc

/-! The methods whose responses the proxy caches: how each decodes its parameters, its key, and when
it stores. A value is written as text and decoded again; as JSON it is the same, so the store holds
the values themselves. -/
namespace Proxyd

inductive CacheError where
  | unmarshal
  | invalidRPCParams
  | invalidEthCallParams
  | hex
  | unavailable (key : String)
  | store
  deriving DecidableEq

def earliest : Text := "earliest".toList

def isBlockDependentParam (s : Text) : Bool := s = "latest".toList ∨ s = "pending".toList

/-- `hexutil.DecodeUint64`: a `0x`, then digits without a leading zero, of at most 64 bits. -/
def decodeBlockInput : Text → Except CacheError (BitVec 64)
  | '0' :: x :: d :: digits =>
    if x ≠ 'x' ∧ x ≠ 'X' then .error .hex
    else if d = '0' ∧ digits ≠ [] then .error .hex
    else
      match Hex.parseFrom 0 (d :: digits) with
      | some n => if n < 2 ^ 64 then .ok (BitVec.ofNat 64 n) else .error .hex
      | none => .error .hex
  | _ => .error .hex

def validBlockInput (input : Text) : Bool :=
  input = earliest ∨ input = "pending".toList ∨ input = "latest".toList ∨
    (decodeBlockInput input).toBool

def encodeUint64 (n : ℕ) : Json := .str ('0' :: 'x' :: Nat.toDigits 16 n)

def unmarshalList : Option Json → Except CacheError (List Json)
  | some (.arr list) => .ok list
  | some .null => .ok []
  | _ => .error .unmarshal

variable (params : Option Json)

def decodeGetBlockByNumberParams : Except CacheError (Text × Bool) := do
  let list ← unmarshalList params
  match list with
  | [.str blockNum, .bool includeTx] =>
    if validBlockInput blockNum then .ok (blockNum, includeTx) else .error .invalidRPCParams
  | _ => .error .invalidRPCParams

def decodeGetBlockRangeParams : Except CacheError (Text × Text × Bool) := do
  let list ← unmarshalList params
  match list with
  | [.str startBlockNum, .str endBlockNum, .bool includeTx] =>
    if validBlockInput startBlockNum ∧ validBlockInput endBlockNum then
      .ok (startBlockNum, endBlockNum, includeTx)
    else .error .invalidRPCParams
  | _ => .error .invalidRPCParams

structure EthCallParams where
  from_ : Text := []
  to_ : Text := []
  gas : Text := []
  gasPrice : Text := []
  value : Text := []
  data : Text := []
  deriving DecidableEq

/-- Names of members are matched up to case, and up to two letters that fold to ASCII ones. -/
def foldName (name : Text) : Text :=
  name.map fun c => if c = 'ſ' then 's' else if c = Char.ofNat 0x212A then 'k' else c.toLower

def EthCallParams.set? (params : EthCallParams) (name : Text) : Option (Text → EthCallParams) :=
  let name := foldName name
  if name = "from".toList then some fun s => { params with from_ := s }
  else if name = "to".toList then some fun s => { params with to_ := s }
  else if name = "gas".toList then some fun s => { params with gas := s }
  else if name = "gasprice".toList then some fun s => { params with gasPrice := s }
  else if name = "value".toList then some fun s => { params with value := s }
  else if name = "data".toList then some fun s => { params with data := s }
  else none

/-- Members are assigned in order; unknown ones are skipped, and `null` assigns nothing. -/
def EthCallParams.unmarshal (params : EthCallParams) :
    List (Text × Json) → Except CacheError EthCallParams
  | [] => .ok params
  | (name, v) :: members =>
    match params.set? name, v with
    | some set, .str s => EthCallParams.unmarshal (set s) members
    | some _, .null => EthCallParams.unmarshal params members
    | some _, _ => .error .unmarshal
    | none, _ => EthCallParams.unmarshal params members

def decodeEthCallObject : Json → Except CacheError EthCallParams
  | .obj members => EthCallParams.unmarshal {} members
  | .null => .ok {}
  | _ => .error .unmarshal

def unmarshalString : Json → Except CacheError Text
  | .str s => .ok s
  | .null => .ok []
  | _ => .error .unmarshal

def decodeEthCallParams : Except CacheError (EthCallParams × Text) := do
  let input ← unmarshalList params
  match input with
  | [object, tag] => do
    let params ← decodeEthCallObject object
    let blockTag ← unmarshalString tag
    .ok (params, blockTag)
  | _ => .error .invalidEthCallParams

def formatBool (b : Bool) : Text := if b then "true".toList else "false".toList

def getBlockByNumberKey (input : Text) (includeTx : Bool) : Text :=
  "method:eth_getBlockByNumber:".toList ++ input ++ ':' :: formatBool includeTx

def getBlockRangeKey (start end_ : Text) (includeTx : Bool) : Text :=
  "method:eth_getBlockRange:".toList ++ start ++ ':' :: end_ ++ ':' :: formatBool includeTx

def ethCallKey (params : EthCallParams) (blockTag : Text) : Text :=
  "method:eth_call:".toList ++ params.to_ ++ ':' :: params.data ++ ':' :: blockTag

def ethCallCacheable (params : EthCallParams) (blockTag : Text) : Bool :=
  if isBlockDependentParam blockTag then false
  else if params.from_ ≠ [] ∨ params.gas ≠ [] then false
  else if params.value ≠ [] ∧ params.value ≠ "0x0".toList then false
  else true

inductive Handler where
  | static
  | getBlockByNumber
  | getBlockRange
  | blockNumber
  | gasPrice
  | ethCall
  deriving DecidableEq

def handlers (method : String) : Option Handler :=
  if method = "eth_chainId" ∨ method = "net_version" then some .static
  else if method = "eth_getBlockByNumber" then some .getBlockByNumber
  else if method = "eth_getBlockRange" then some .getBlockRange
  else if method = "eth_blockNumber" then some .blockNumber
  else if method = "eth_gasPrice" then some .gasPrice
  else if method = "eth_call" then some .ethCall
  else none

/-- The values of the static methods, the stored responses, and the last values polled. The store
may be out of reach. -/
structure RPCCache where
  static : String → Json
  entries : Text → Option Json
  up : Bool
  latestBlockNum : Option ℕ
  latestGasPrice : Option ℕ

def emptyCache : RPCCache := {
  static := fun _ => .null
  entries := fun _ => none
  up := true
  latestBlockNum := none
  latestGasPrice := none }

def readUint64 (key : String) (up : Bool) : Option ℕ → Except CacheError (BitVec 64)
  | some n =>
    if up = false then .error .store
    else if n < 2 ^ 64 then .ok (BitVec.ofNat 64 n)
    else .error .unmarshal
  | none => if up then .error (.unavailable key) else .error .store

variable (c : RPCCache)

def RPCCache.getLatestBlockNum : Except CacheError (BitVec 64) :=
  readUint64 "lvc:block_number" c.up c.latestBlockNum

def RPCCache.getLatestGasPrice : Except CacheError (BitVec 64) :=
  readUint64 "lvc:gas_price" c.up c.latestGasPrice

variable (req : RPCReq)

def makeRPCRes (result : Json) : RPCRes := {
  jsonrpc := jsonrpcVersion, id := req.id, result }

def cachedRes (result : Json) : RPCRes := {
  jsonrpc := req.jsonrpc, result, id := req.id }

def RPCCache.getStatic : Option RPCRes :=
  let cache := c.static req.method
  if cache.isNull then none else some (cachedRes req cache)

def RPCCache.getImmutable (key : Text) (req : RPCReq) : Except CacheError (Option RPCRes) :=
  if c.up then .ok ((c.entries key).map (cachedRes req)) else .error .store

def RPCCache.getRPC : Except CacheError (Option RPCRes) :=
  match handlers req.method with
  | none => .ok none
  | some .static => .ok (c.getStatic req)
  | some .getBlockByNumber => do
    let (input, includeTx) ← decodeGetBlockByNumberParams req.params
    if isBlockDependentParam input then .ok none
    else c.getImmutable (getBlockByNumberKey input includeTx) req
  | some .getBlockRange => do
    let (start, end_, includeTx) ← decodeGetBlockRangeParams req.params
    if isBlockDependentParam start ∨ isBlockDependentParam end_ then .ok none
    else c.getImmutable (getBlockRangeKey start end_ includeTx) req
  | some .blockNumber => do
    let blockNum ← c.getLatestBlockNum
    .ok (some (makeRPCRes req (encodeUint64 blockNum.toNat)))
  | some .gasPrice => do
    let gasPrice ← c.getLatestGasPrice
    .ok (some (makeRPCRes req (encodeUint64 gasPrice.toNat)))
  | some .ethCall => do
    let (params, blockTag) ← decodeEthCallParams req.params
    if ethCallCacheable params blockTag then c.getImmutable (ethCallKey params blockTag) req
    else .ok none

inductive Write where
  | static (method : String) (v : Json)
  | entry (key : Text) (v : Json)

/-- Whether the block has enough confirmations at the latest block. The sum is one of 64 bits. -/
def confirmed (latest : Except CacheError (BitVec 64)) (numBlockConfirmations : ℕ)
    (input : Text) : Except CacheError Bool :=
  if input = earliest then .ok true
  else do
    let curBlock ← latest
    let blockNum ← decodeBlockInput input
    .ok (!decide (curBlock ≤ blockNum + BitVec.ofNat 64 numBlockConfirmations))

def RPCCache.putImmutable (key : Text) (v : Json) : Except CacheError (Option Write) :=
  if c.up then .ok (some (.entry key v)) else .error .store

def RPCCache.putRPC (numBlockConfirmations : ℕ) (req : RPCReq) (result : Json) :
    Except CacheError (Option Write) :=
  match handlers req.method with
  | none => .ok none
  | some .static =>
    if (c.static req.method).isNull then .ok (some (.static req.method result)) else .ok none
  | some .getBlockByNumber => do
    let (input, includeTx) ← decodeGetBlockByNumberParams req.params
    if isBlockDependentParam input then .ok none
    else do
      let ok ← confirmed c.getLatestBlockNum numBlockConfirmations input
      if ok then c.putImmutable (getBlockByNumberKey input includeTx) result else .ok none
  | some .getBlockRange => do
    let (start, end_, includeTx) ← decodeGetBlockRangeParams req.params
    if isBlockDependentParam start ∨ isBlockDependentParam end_ then .ok none
    else do
      let curBlock ← c.getLatestBlockNum
      let okStart ← confirmed (.ok curBlock) numBlockConfirmations start
      if okStart then do
        let okEnd ← confirmed (.ok curBlock) numBlockConfirmations end_
        if okEnd then c.putImmutable (getBlockRangeKey start end_ includeTx) result else .ok none
      else .ok none
  | some .blockNumber => .ok none
  | some .gasPrice => .ok none
  | some .ethCall => do
    let (params, blockTag) ← decodeEthCallParams req.params
    if ethCallCacheable params blockTag then do
      let ok ← confirmed c.getLatestBlockNum numBlockConfirmations blockTag
      if ok then c.putImmutable (ethCallKey params blockTag) result else .ok none
    else .ok none

def RPCCache.write : Write → RPCCache
  | .static method v => { c with static := Function.update c.static method v }
  | .entry key v => { c with entries := Function.update c.entries key (some v) }

end Proxyd
