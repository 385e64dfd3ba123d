import Mathlib.Data.Int.Notation
import Mathlib.Data.Nat.Notation

/-! JSON-RPC requests and responses as the proxy reads and writes them. -/
namespace Proxyd

abbrev Text := List Char

abbrev RawMessage := List UInt8

inductive Json where
  | null
  | bool (b : Bool)
  | num (digits : Text)
  | str (s : Text)
  | arr (elems : List Json)
  | obj (members : List (Text × Json))

def Json.isNull : Json → Bool
  | .null => true
  | _ => false

structure RPCErr where
  code : ℤ
  message : String
  data : String := ""
  httpErrorCode : ℕ := 0
  deriving DecidableEq

structure RPCReq where
  jsonrpc : String
  method : String
  params : Option Json
  id : RawMessage

structure RPCRes where
  jsonrpc : String
  result : Json := .null
  error : Option RPCErr := none
  id : RawMessage

def jsonrpcVersion : String := "2.0"

def jsonrpcErrorInternal : ℤ := -32000

def errParseErr : RPCErr := {
  code := -32700, message := "parse error", httpErrorCode := 400 }

def errInternal : RPCErr := {
  code := jsonrpcErrorInternal, message := "internal error", httpErrorCode := 500 }

def errMethodNotWhitelisted : RPCErr := {
  code := jsonrpcErrorInternal - 1
  message := "rpc method is not whitelisted"
  httpErrorCode := 403 }

def errNoBackends : RPCErr := {
  code := jsonrpcErrorInternal - 11
  message := "no backends available for method"
  httpErrorCode := 503 }

def errOverRateLimit : RPCErr := {
  code := jsonrpcErrorInternal - 16, message := "over rate limit", httpErrorCode := 429 }

def errOverSenderRateLimit : RPCErr := {
  code := jsonrpcErrorInternal - 17, message := "sender is over rate limit", httpErrorCode := 429 }

def errInvalidRequest (msg : String) : RPCErr := {
  code := -32600, message := msg, httpErrorCode := 400 }

def errInvalidParams (msg : String) : RPCErr := {
  code := -32602, message := msg, httpErrorCode := 400 }

end Proxyd
