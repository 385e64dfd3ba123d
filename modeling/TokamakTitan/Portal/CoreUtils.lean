import TokamakTitan.Library.Hex
import TokamakTitan.Library.RlpSplit
import TokamakTitan.Derive.Types

/-! Deposit transactions in the TypeScript tools. The contract library gives a byte string as a
string of hexadecimal digits. -/
namespace CoreUtils
open BigEndian Rlp List
open Derive (Hash Address)

abbrev HexString := List Char

def hexlify (b : Bytes) : HexString := '0' :: 'x' :: Hex.digits b

/-- What the tools use of `ethers`: slices and bytes of hexadecimal strings, and big numbers from
strings and numbers and as bytes. -/
structure EthersUtils where
  hexDataSlice : HexString → ℕ → ℕ → Except String HexString
  arrayify : HexString → Except String Bytes
  ofString : List Char → Except String ℕ
  ofNumber : ℕ → Except String ℕ
  hexBytes : ℕ → Bytes
  zeroPad : Bytes → ℕ → Except String Bytes

def BigNumber.maxSafe : ℕ := 0x1fffffffffffff

/-- A string is a hexadecimal number after `0x`, and a decimal number without it. -/
structure EthersUtils.Lawful (ethers : EthersUtils) : Prop where
  hexDataSlice : ∀ b i j, ethers.hexDataSlice (hexlify b) i j = .ok (hexlify ((b.take j).drop i))
  arrayify : ∀ b, ethers.arrayify (hexlify b) = .ok b
  ofHex : ∀ b, b ≠ [] → ethers.ofString (hexlify b) = .ok (decode b)
  ofDigit : ∀ n < 16, ethers.ofString [Nat.digitChar n] =
    if n < 10 then .ok n else .error "invalid BigNumber string"
  ofNumber : ∀ n, ethers.ofNumber n = if n ≥ BigNumber.maxSafe then .error "overflow" else .ok n
  hexBytes : ∀ n, ethers.hexBytes n = if n = 0 then [0] else uintBytes n
  zeroPad : ∀ b length, b.length ≤ length →
    ethers.zeroPad b length = .ok (List.replicate (length - b.length) 0 ++ b)

section Utils

variable (ethers : EthersUtils)

def formatNumber (value : ℕ) (name : String) : Except String Bytes :=
  let result := (ethers.hexBytes value).dropWhile (· = 0)
  if result.length > 32 then .error s!"invalid length for {name}" else .ok result

def formatBoolean (value : Bool) : Bytes := if value then [1] else []

inductive SourceHashDomain where
  | userDeposit
  | l1InfoDeposit
  deriving DecidableEq

def SourceHashDomain.value : SourceHashDomain → ℕ
  | .userDeposit => 0
  | .l1InfoDeposit => 1

structure Event where
  event : String
  sender : Address
  recipient : Address
  version : ℕ
  opaqueData : HexString
  blockHash : Hash
  logIndex : ℕ
  deriving DecidableEq

structure DepositTx where
  sender : Address
  recipient : Option Address
  mint : ℕ
  value : ℕ
  gas : ℕ
  isSystemTransaction : Bool
  data : HexString
  domain : SourceHashDomain
  l1BlockHash : Hash
  marker : ℕ
  deriving DecidableEq

def elementAt (s : List Char) (i : ℕ) : Except String (List Char) :=
  match s[i]? with
  | some c => .ok [c]
  | none => .error "invalid BigNumber value"

/-- The fields of the packed data. The creation flag is looked up in the string at the offset of the
bytes. -/
def unpack (event : Event) : Except String DepositTx := do
  let opaqueData := event.opaqueData
  let mint ← ethers.hexDataSlice opaqueData 0 32
  let mint ← ethers.ofString mint
  let value ← ethers.hexDataSlice opaqueData 32 64
  let value ← ethers.ofString value
  let gas ← ethers.hexDataSlice opaqueData 64 72
  let gas ← ethers.ofString gas
  let flag ← elementAt opaqueData 72
  let flag ← ethers.ofString flag
  let data ← ethers.hexDataSlice opaqueData 73 (73 + (opaqueData.length - 73))
  return {
    sender := event.sender
    recipient := if flag = 1 then none else some event.recipient
    mint
    value
    gas
    isSystemTransaction := false
    data
    domain := .userDeposit
    l1BlockHash := event.blockHash
    marker := event.logIndex }

def fromL1Event (event : Event) : Except String DepositTx :=
  let name := event.event
  let version := event.version
  let length := event.opaqueData.length
  if name ≠ "TransactionDeposited" then .error s!"incorrect event type: {name}"
  else if version ≠ 0 then .error s!"Unsupported version {version}"
  else if length < 32 + 32 + 8 + 1 then .error s!"invalid opaqueData size: {length}"
  else unpack ethers event

namespace DepositTx

variable (keccak : Bytes → Hash) (tx : DepositTx)

def sourceHash : Except String Hash := do
  let marker ← ethers.ofNumber tx.marker
  let padded ← ethers.zeroPad (ethers.hexBytes marker) 32
  let depositIDHash := keccak (encode 32 tx.l1BlockHash.toNat ++ padded)
  let domain ← ethers.zeroPad (ethers.hexBytes tx.domain.value) 32
  return keccak (domain ++ encode 32 depositIDHash.toNat)

def encode : Except String Bytes := do
  let source ← tx.sourceHash ethers keccak
  let mint ← formatNumber ethers tx.mint "mint"
  let value ← formatNumber ethers tx.value "value"
  let gas ← formatNumber ethers tx.gas "gas"
  let data ← ethers.arrayify tx.data
  let fields := [BigEndian.encode 32 source.toNat, BigEndian.encode 20 tx.sender.toNat,
    (tx.recipient.map fun recipient => BigEndian.encode 20 recipient.toNat).getD [],
    mint,
    value,
    gas,
    formatBoolean tx.isSystemTransaction,
    data]
  return 0x7e :: encodeList (fields.map encodeString)

def hash : Except String Hash := (tx.encode ethers keccak).map keccak

/-- The transaction that the fields describe: no amount is minted when the mint is zero. -/
def deposit : Except String Derive.DepositTx := do
  let source ← tx.sourceHash ethers keccak
  let data ← ethers.arrayify tx.data
  return {
    sourceHash := source
    sender := tx.sender
    recipient := tx.recipient
    mint := if tx.mint = 0 then none else some tx.mint
    value := tx.value
    gas := BitVec.ofNat 64 tx.gas
    isSystemTransaction := tx.isSystemTransaction
    data }

end DepositTx

end Utils

theorem length_hexlify (b : Bytes) : (hexlify b).length = 2 + 2 * b.length := by
  simp [hexlify]
  omega

theorem elementAt_hexlify {b : Bytes} {i : ℕ} {x : UInt8} (h : b[i]? = some x) :
    elementAt (hexlify b) (2 + 2 * i) = .ok [Nat.digitChar (x.toNat / 16)] := by
  have hget : (hexlify b)[2 + 2 * i]? = some (Nat.digitChar (x.toNat / 16)) := by
    rw [hexlify, Nat.add_comm, getElem?_cons_succ, getElem?_cons_succ, Hex.digits_getElem? h]
  rw [elementAt, hget]

section Laws

variable {ethers : EthersUtils} (h : ethers.Lawful) {n : ℕ}
include h

theorem formatNumber_eq (hn : (uintBytes n).length ≤ 32) (name : String) :
    formatNumber ethers n name = .ok (uintBytes n) := by
  have hstrip : (ethers.hexBytes n).dropWhile (· = 0) = uintBytes n := by
    rw [h.hexBytes]
    by_cases hzero : n = 0
    · rw [if_pos hzero, hzero]
      rfl
    · rw [if_neg hzero]
      exact Rlp.dropWhile_replicate_zero 0 (head?_uintBytes n)
  unfold formatNumber
  dsimp only
  rw [hstrip, if_neg (by omega)]

theorem zeroPad_hexBytes (hn : n < 2 ^ 64) :
    ethers.zeroPad (ethers.hexBytes n) 32 = .ok (BigEndian.encode 32 n) := by
  rw [h.hexBytes]
  by_cases hzero : n = 0
  · rw [if_pos hzero, hzero, h.zeroPad _ _ (by decide)]
    rfl
  · have hbytes : uintBytes n = BigEndian.encode (byteLength n) n := if_neg hzero
    have hle := byteLength_le hn
    have hpad := encode_add_zeros (m := 32 - byteLength n) (lt_pow_byteLength n)
    rw [Nat.sub_add_cancel (by omega)] at hpad
    rw [if_neg hzero, hbytes, h.zeroPad _ _ (by rw [length_encode]; omega), length_encode, ← hpad]

end Laws

def decimal? (c : Char) : Option ℕ := if '0' ≤ c ∧ c ≤ '9' then some (c.toNat - 48) else none

def parseDecimal (n : ℕ) : List Char → Option ℕ
  | [] => some n
  | c :: cs =>
    match decimal? c with
    | some d => parseDecimal (n * 10 + d) cs
    | none => none

def bigNumber? : List Char → Option ℕ
  | [] => none
  | '0' :: 'x' :: c :: cs => Hex.parseFrom 0 (c :: cs)
  | c :: cs => parseDecimal 0 (c :: cs)

def utils : EthersUtils where
  hexDataSlice data offset endOffset :=
    .ok ('0' :: 'x' :: (data.take (2 + 2 * endOffset)).drop (2 + 2 * offset))
  arrayify data := (Hex.bytes? (data.drop 2)).elim (.error "invalid arrayify value") .ok
  ofString s := (bigNumber? s).elim (.error "invalid BigNumber string") .ok
  ofNumber n := if n ≥ BigNumber.maxSafe then .error "overflow" else .ok n
  hexBytes n := if n = 0 then [0] else uintBytes n
  zeroPad b length := if b.length > length then .error "value out of range"
    else .ok (List.replicate (length - b.length) 0 ++ b)

theorem utils_lawful : utils.Lawful := by
  constructor
  case hexDataSlice =>
    intro b i j
    have htake : (hexlify b).take (2 + 2 * j) = hexlify (b.take j) := by
      rw [hexlify, Nat.add_comm, take_succ_cons, take_succ_cons, Hex.digits_take, hexlify]
    have hdrop : (hexlify (b.take j)).drop (2 + 2 * i) = Hex.digits ((b.take j).drop i) := by
      rw [hexlify, Nat.add_comm, drop_succ_cons, drop_succ_cons, Hex.digits_drop]
    simp only [utils, htake, hdrop]
    rfl
  case arrayify =>
    intro b
    simp [utils, hexlify, Hex.bytes?_digits]
  case ofHex =>
    intro b hne
    obtain ⟨x, b, rfl⟩ := exists_cons_of_ne_nil hne
    have hparse := Hex.parseFrom_digits 0 (x :: b)
    rw [Nat.zero_mul, Nat.zero_add, Hex.digits_cons] at hparse
    simp only [utils, hexlify, Hex.digits_cons, bigNumber?, hparse, Option.elim]
  case ofDigit =>
    intro n hn
    interval_cases n <;> decide
  case ofNumber => exact fun _ => rfl
  case hexBytes => exact fun _ => rfl
  case zeroPad => exact fun b length h => if_neg (by omega)

end CoreUtils
