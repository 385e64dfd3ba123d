import TokamakTitan.Library.Abi
import TokamakTitan.Derive.Types

/-! Deposit transactions: the user deposits in the logs of an L1 block, and the transaction with the
attributes of the L1 block itself. -/
namespace Derive
open BigEndian Checked List

structure Log where
  address : Address
  topics : List Hash
  data : Bytes
  blockHash : Hash
  index : Uint64
  deriving DecidableEq

structure Receipt where
  status : Uint64
  logs : List Log
  deriving DecidableEq

def receiptStatusSuccessful : Uint64 := 1

/-- The hash of `TransactionDeposited(address,address,uint256,bytes)`. -/
def depositEventABIHash : Hash :=
  0xb3813568d9991fc951961fcb4c784893574240a28925604d09fc577c55bb7c32

def depositEventVersion0 : Hash := 0

def userDepositSourceDomain : Uint64 := 0

def l1InfoDepositSourceDomain : Uint64 := 1

def hashBytes (h : Hash) : Bytes := encode 32 h.toNat

def uint64Word (n : Uint64) : Bytes := List.replicate 24 0 ++ encode 8 n.toNat

def bytesToHash (b : Bytes) : Hash := BitVec.ofNat 256 (decode b)

section Source

variable (keccak : Bytes → Hash)

/-- The hash of the domain and of what identifies the deposit in the domain. -/
def sourceHash (domain : Uint64) (l1BlockHash : Hash) (index : Uint64) : Hash :=
  let depositIDHash := keccak (hashBytes l1BlockHash ++ uint64Word index)
  keccak (uint64Word domain ++ hashBytes depositIDHash)

def userDepositSourceHash (l1BlockHash : Hash) (logIndex : Uint64) : Hash :=
  sourceHash keccak userDepositSourceDomain l1BlockHash logIndex

def l1InfoDepositSourceHash (l1BlockHash : Hash) (seqNumber : Uint64) : Hash :=
  sourceHash keccak l1InfoDepositSourceDomain l1BlockHash seqNumber

def unmarshalDepositVersion0 (dep : DepositTx) (recipient : Address) (opaqueData : Bytes) :
    Except String DepositTx := do
  if opaqueData.length < 32 + 32 + 8 + 1 then
    throw "unexpected opaqueData length"
  let mint := decode (opaqueData.take 32)
  let value := decode ((opaqueData.drop 32).take 32)
  let gas := BitVec.ofNat 64 (decode ((opaqueData.drop 64).take 8))
  return { dep with
    mint := if mint = 0 then none else some mint
    value
    gas
    recipient := if (opaqueData.drop 72).head? = some 0 then some recipient else none
    data := opaqueData.drop 73 }

/-- The deposit before its opaque data is read. -/
def newDepositTx (ev : Log) (sender : Address) : DepositTx where
  sourceHash := userDepositSourceHash keccak ev.blockHash ev.index
  sender
  recipient := none
  mint := none
  value := 0
  gas := 0
  isSystemTransaction := false
  data := []

def unmarshalDepositLogEvent (ev : Log) : Except String DepositTx :=
  match ev.topics with
  | [event, fromTopic, toTopic, version] => do
    if event ≠ depositEventABIHash then throw "invalid deposit event selector"
    if ev.data.length < 64 then throw "incomplate opaqueData slice header"
    if ev.data.length % 32 ≠ 0 then throw "expected log data to be multiple of 32 bytes"
    let opaqueContentOffset := decode (ev.data.take 32)
    if opaqueContentOffset ≠ 32 then throw "invalid opaqueData slice header offset"
    let opaqueContentLength := decode ((ev.data.drop 32).take 32)
    -- the content stays inside the data, and the padding after it is less than a word
    if opaqueContentLength ≥ 2 ^ 64 ∨ opaqueContentLength > ev.data.length - 64 ∨
        opaqueContentLength + 32 ≤ ev.data.length - 64 then
      throw "invalid opaqueData slice header length"
    let opaqueData := (ev.data.drop 64).take opaqueContentLength
    let dep := newDepositTx keccak ev (fromTopic.setWidth 160)
    if version ≠ depositEventVersion0 then throw "invalid deposit version"
    unmarshalDepositVersion0 dep (toTopic.setWidth 160) opaqueData
  | _ => throw
      "expected 4 event topics (event identity, indexed from, indexed to, indexed version)"

def isDepositLog (depositContractAddr : Address) (log : Log) : Bool :=
  log.address = depositContractAddr ∧ log.topics.head? = some depositEventABIHash

/-- The inner loop: the logs of a receipt, with the deposits and the errors found so far. -/
def userDepositsOfLogs (depositContractAddr : Address) (i : ℕ) :
    List (Log × ℕ) → List DepositTx × List String → List DepositTx × List String
  | [], found => found
  | (log, j) :: logs, (out, errs) =>
    if isDepositLog depositContractAddr log then
      match unmarshalDepositLogEvent keccak log with
      | .error err =>
        userDepositsOfLogs depositContractAddr i logs
          (out, errs ++ [s!"malformatted L1 deposit log in receipt {i}, log {j}: {err}"])
      | .ok dep => userDepositsOfLogs depositContractAddr i logs (out ++ [dep], errs)
    else userDepositsOfLogs depositContractAddr i logs (out, errs)

def userDepositsOfReceipts (depositContractAddr : Address) :
    List (Receipt × ℕ) → List DepositTx × List String → List DepositTx × List String
  | [], found => found
  | (receipt, i) :: receipts, found =>
    if receipt.status ≠ receiptStatusSuccessful then
      userDepositsOfReceipts depositContractAddr receipts found
    else
      userDepositsOfReceipts depositContractAddr receipts
        (userDepositsOfLogs keccak depositContractAddr i receipt.logs.zipIdx found)

def userDeposits (receipts : List Receipt) (depositContractAddr : Address) :
    List DepositTx × List String :=
  userDepositsOfReceipts keccak depositContractAddr receipts.zipIdx ([], [])

variable (codec : TxCodec)

def encodeDeposits : List (DepositTx × ℕ) → List Bytes × List String → List Bytes × List String
  | [], found => found
  | (tx, i) :: deposits, (encodedTxs, errs) =>
    match codec.marshalBinary tx with
    | .error _ => encodeDeposits deposits (encodedTxs, errs ++ [s!"failed to encode user tx {i}"])
    | .ok opaqueTx => encodeDeposits deposits (encodedTxs ++ [opaqueTx], errs)

def deriveDeposits (receipts : List Receipt) (depositContractAddr : Address) :
    List Bytes × List String :=
  let (deposits, errs) := userDeposits keccak receipts depositContractAddr
  encodeDeposits codec deposits.zipIdx ([], errs)

end Source

section Logs

variable {keccak : Bytes → Hash} {codec : TxCodec} {depositContractAddr : Address}

theorem unmarshalDepositVersion0_packed (dep : DepositTx) (recipient : Address) {mint value : ℕ}
    (hmint : mint < 2 ^ 256) (hvalue : value < 2 ^ 256) (gas : Uint64) (flag : UInt8)
    (data : Bytes) :
    unmarshalDepositVersion0 dep recipient (encode 32 mint ++ (encode 32 value ++
      (encode 8 gas.toNat ++ (flag :: data)))) = .ok { dep with
        mint := if mint = 0 then none else some mint
        value
        gas
        recipient := if flag = 0 then some recipient else none
        data } := by
  have hgas : BitVec.ofNat 64 (decode (encode 8 gas.toNat)) = gas := by
    rw [decode_encode (gas.isLt.trans_le (by norm_num)), BitVec.ofNat_toNat, BitVec.setWidth_eq]
  have hfirst (rest : Bytes) (k n v : ℕ) :
      (encode n v ++ rest).drop (n + k) = rest.drop k := by
    rw [← drop_drop, drop_left' (length_encode n v)]
  unfold unmarshalDepositVersion0
  rw [if_neg (by simp; omega), hfirst _ 0, hfirst _ 32, hfirst _ 0, hfirst _ 40, hfirst _ 8,
    hfirst _ 0, hfirst _ 41, hfirst _ 9, hfirst _ 1]
  simp only [drop_zero, take_left' (length_encode _ _),
    decode_encode (show mint < 256 ^ 32 by omega), decode_encode (show value < 256 ^ 32 by omega),
    hgas, head?_cons, Option.some.injEq, drop_one, tail_cons]
  rfl

theorem unmarshalDepositLogEvent_encodeBytes {ev : Log} {fromTopic toTopic : Hash}
    {content : Bytes}
    (htopics : ev.topics = [depositEventABIHash, fromTopic, toTopic, depositEventVersion0])
    (hdata : ev.data = Abi.encodeBytes [] content []) (hlength : content.length < 2 ^ 64) :
    unmarshalDepositLogEvent keccak ev =
      unmarshalDepositVersion0 (newDepositTx keccak ev (fromTopic.setWidth 160))
        (toTopic.setWidth 160) content := by
  have hsplit : ev.data = encode 32 32 ++ (encode 32 content.length ++
      (content ++ replicate (Abi.padding content.length) 0)) := by
    simp [hdata, Abi.encodeBytes, Abi.words, Abi.tail]
  have htotal : ev.data.length = 64 + (content.length + Abi.padding content.length) := by
    simp [hsplit]
    omega
  have hpad : Abi.padding content.length < 32 := Nat.mod_lt _ (by norm_num)
  have hmod : (content.length + Abi.padding content.length) % 32 = 0 := by
    unfold Abi.padding
    omega
  have hoffset : decode (ev.data.take 32) = 32 := by
    rw [hsplit, take_left' (length_encode 32 _), decode_encode (by norm_num)]
  have hcount : decode ((ev.data.drop 32).take 32) = content.length := by
    rw [hsplit, drop_left' (length_encode 32 _), take_left' (length_encode 32 _),
      decode_encode (by omega)]
  have hcontent : (ev.data.drop 64).take content.length = content := by
    have hdrop : (ev.data.drop 32).drop 32 =
        content ++ replicate (Abi.padding content.length) 0 := by
      rw [hsplit, drop_left' (length_encode 32 _), drop_left' (length_encode 32 _)]
    rw [drop_drop] at hdrop
    rw [hdrop, take_left' rfl]
  have hshort : ¬ ev.data.length < 64 := by omega
  have hwords : ¬ ev.data.length % 32 ≠ 0 := by omega
  have hbounds : ¬ (content.length ≥ 2 ^ 64 ∨ content.length > ev.data.length - 64 ∨
      content.length + 32 ≤ ev.data.length - 64) := by omega
  unfold unmarshalDepositLogEvent
  rw [htopics]
  simp only [hoffset, hcount, hcontent, ne_eq, not_true_eq_false, if_neg hshort, if_neg hwords,
    if_neg hbounds, if_false]

def depositLogs (receipts : List Receipt) (depositContractAddr : Address) : List Log :=
  (receipts.filter fun receipt => receipt.status = receiptStatusSuccessful).flatMap fun receipt =>
    receipt.logs.filter (isDepositLog depositContractAddr)

variable {errs : List String} {out : List DepositTx} {logs : List Log} {found : List DepositTx}
  {start : ℕ}

theorem userDepositsOfLogs_spec {i : ℕ} (h : userDepositsOfLogs keccak depositContractAddr i
      (logs.zipIdx start) (found, errs) = (out, [])) :
    errs = [] ∧ ∃ more, out = found ++ more ∧ Forall₂
      (fun log dep => unmarshalDepositLogEvent keccak log = .ok dep)
      (logs.filter (isDepositLog depositContractAddr)) more := by
  induction logs generalizing start found errs with
  | nil =>
    simp only [zipIdx_nil, userDepositsOfLogs, Prod.mk.injEq] at h
    exact ⟨h.2, [], by simp [h.1], .nil⟩
  | cons log logs ih =>
    rw [zipIdx_cons, userDepositsOfLogs] at h
    by_cases hlog : isDepositLog depositContractAddr log
    · rw [if_pos hlog] at h
      rw [filter_cons_of_pos hlog]
      cases hdep : unmarshalDepositLogEvent keccak log with
      | error =>
        rw [hdep] at h
        have herrs := (ih h).1
        simp at herrs
      | ok dep =>
        rw [hdep] at h
        obtain ⟨herrs, more, hout, hmore⟩ := ih h
        exact ⟨herrs, dep :: more, by simp [hout], .cons hdep hmore⟩
    · rw [if_neg hlog] at h
      rw [filter_cons_of_neg hlog]
      exact ih h

variable {receipts : List Receipt}

theorem userDepositsOfReceipts_spec (h : userDepositsOfReceipts keccak depositContractAddr
      (receipts.zipIdx start) (found, errs) = (out, [])) :
    errs = [] ∧ ∃ more, out = found ++ more ∧ Forall₂
      (fun log dep => unmarshalDepositLogEvent keccak log = .ok dep)
      (depositLogs receipts depositContractAddr) more := by
  induction receipts generalizing start found errs with
  | nil =>
    simp only [zipIdx_nil, userDepositsOfReceipts, Prod.mk.injEq] at h
    exact ⟨h.2, [], by simp [h.1], .nil⟩
  | cons receipt receipts ih =>
    rw [zipIdx_cons, userDepositsOfReceipts] at h
    unfold depositLogs at ih ⊢
    by_cases hstatus : receipt.status = receiptStatusSuccessful
    · rw [if_neg (not_not.mpr hstatus)] at h
      rw [filter_cons_of_pos (by simpa using hstatus), flatMap_cons]
      generalize hlogs : userDepositsOfLogs keccak depositContractAddr start
        receipt.logs.zipIdx (found, errs) = inner at h
      obtain ⟨innerOut, innerErrs⟩ := inner
      obtain ⟨rfl, more, hout, hmore⟩ := ih h
      obtain ⟨herrs, ofLogs, hinner, hofLogs⟩ := userDepositsOfLogs_spec hlogs
      refine ⟨herrs, ofLogs ++ more, ?_, rel_append hofLogs hmore⟩
      rw [hout, hinner, append_assoc]
    · rw [if_pos hstatus] at h
      rw [filter_cons_of_neg (by simpa using hstatus)]
      exact ih h

variable {deposits : List DepositTx}

theorem encodeDeposits_spec {found out : List Bytes}
    (h : encodeDeposits codec (deposits.zipIdx start) (found, errs) = (out, [])) :
    errs = [] ∧ ∃ more, out = found ++ more ∧
      Forall₂ (fun dep tx => codec.marshalBinary dep = .ok tx) deposits more := by
  induction deposits generalizing start found errs with
  | nil =>
    simp only [zipIdx_nil, encodeDeposits, Prod.mk.injEq] at h
    exact ⟨h.2, [], by simp [h.1], .nil⟩
  | cons dep deposits ih =>
    rw [zipIdx_cons, encodeDeposits] at h
    cases hdep : codec.marshalBinary dep with
    | error =>
      rw [hdep] at h
      have herrs := (ih h).1
      simp at herrs
    | ok tx =>
      rw [hdep] at h
      obtain ⟨herrs, more, hout, hmore⟩ := ih h
      exact ⟨herrs, tx :: more, by simp [hout], .cons hdep hmore⟩

variable (keccak codec) in
def DepositOf (log : Log) (tx : Bytes) : Prop :=
  ∃ dep, unmarshalDepositLogEvent keccak log = .ok dep ∧ codec.marshalBinary dep = .ok tx

variable {txs : List Bytes}

theorem forall₂_depositOf (hparsed : Forall₂ (fun log dep => unmarshalDepositLogEvent keccak log
      = .ok dep) logs deposits)
    (hencoded : Forall₂ (fun dep tx => codec.marshalBinary dep = .ok tx) deposits txs) :
    Forall₂ (DepositOf keccak codec) logs txs := by
  induction hparsed generalizing txs with
  | nil =>
    cases hencoded
    exact .nil
  | cons hlog _ ih =>
    cases hencoded with
    | cons htx hrest => exact .cons ⟨_, hlog, htx⟩ (ih hrest)

theorem deriveDeposits_spec
    (h : deriveDeposits keccak codec receipts depositContractAddr = (txs, [])) :
    Forall₂ (DepositOf keccak codec) (depositLogs receipts depositContractAddr) txs := by
  unfold deriveDeposits userDeposits at h
  generalize hdeposits : userDepositsOfReceipts keccak depositContractAddr receipts.zipIdx
    ([], []) = user at h
  obtain ⟨deposits, errs⟩ := user
  obtain ⟨rfl, txs', htxs, hencoded⟩ := encodeDeposits_spec h
  obtain ⟨-, deposits', hdeposits', hparsed⟩ := userDepositsOfReceipts_spec hdeposits
  rw [nil_append] at htxs hdeposits'
  subst htxs hdeposits'
  exact forall₂_depositOf hparsed hencoded

theorem DepositOf.isDeposit {log : Log} {tx : Bytes} (h : DepositOf keccak codec log tx) :
    isDeposit tx = true := by
  obtain ⟨dep, -, hmarshal⟩ := h
  obtain ⟨rest, rfl⟩ := codec.marshal_cons hmarshal
  rfl

end Logs

structure L1BlockInfo where
  number : Uint64
  time : Uint64
  baseFee : BitVec 256
  blockHash : Hash
  sequenceNumber : Uint64
  deriving DecidableEq

/-- The selector of `setL1BlockValues(uint64,uint64,uint256,bytes32,uint64)`. -/
def l1InfoFuncBytes4 : Bytes := [0x04, 0x2c, 0x2f, 0x57]

def l1InfoDepositerAddress : Address := 0xdeaddeaddeaddeaddeaddeaddeaddeaddead0001

def l1BlockAddress : Address := 0x4200000000000000000000000000000000000015

namespace L1BlockInfo

variable (info : L1BlockInfo)

def marshalBinary : Bytes :=
  l1InfoFuncBytes4 ++ uint64Word info.number ++ uint64Word info.time ++
    encode 32 info.baseFee.toNat ++ hashBytes info.blockHash ++ uint64Word info.sequenceNumber

def readUint64 (data : Bytes) (offset : ℕ) (field : String) : Except String Uint64 :=
  if (data.drop offset).take 24 = List.replicate 24 0 then
    .ok (BitVec.ofNat 64 (decode ((data.drop (offset + 24)).take 8)))
  else .error s!"l1 info {field} exceeds uint64 bounds"

def unmarshalBinary (data : Bytes) : Except String L1BlockInfo := do
  if data.length ≠ 4 + 32 + 32 + 32 + 32 + 32 then throw "data is unexpected length"
  let number ← readUint64 data 4 "number"
  let time ← readUint64 data 36 "time"
  let baseFee := BitVec.ofNat 256 (decode ((data.drop 68).take 32))
  let blockHash := bytesToHash ((data.drop 100).take 32)
  let sequenceNumber ← readUint64 data 132 "sequence number"
  return { number, time, baseFee, blockHash, sequenceNumber }

theorem length_uint64Word (n : Uint64) : (uint64Word n).length = 32 := by
  simp [uint64Word]

theorem length_marshalBinary : info.marshalBinary.length = 164 := by
  simp [marshalBinary, l1InfoFuncBytes4, length_uint64Word, hashBytes]

theorem readUint64_append {before after : Bytes} {offset : ℕ} (h : before.length = offset)
    (n : Uint64) (field : String) :
    readUint64 (before ++ (uint64Word n ++ after)) offset field = .ok n := by
  subst h
  unfold readUint64 uint64Word
  rw [← drop_drop, drop_left, append_assoc, take_left' (length_replicate), if_pos rfl,
    drop_left' (length_replicate), take_left' (length_encode _ _),
    decode_encode n.isLt]
  simp

theorem unmarshalBinary_marshalBinary : unmarshalBinary info.marshalBinary = .ok info := by
  have hnumber : readUint64 info.marshalBinary 4 "number" = .ok info.number := by
    unfold marshalBinary
    simp only [append_assoc]
    exact readUint64_append rfl _ _
  have htime : readUint64 info.marshalBinary 36 "time" = .ok info.time := by
    unfold marshalBinary
    rw [append_assoc, append_assoc, append_assoc]
    exact readUint64_append (by simp [l1InfoFuncBytes4, length_uint64Word]) _ _
  have hfee : decode ((info.marshalBinary.drop 68).take 32) = info.baseFee.toNat := by
    unfold marshalBinary
    rw [append_assoc, append_assoc, drop_left' (by simp [l1InfoFuncBytes4, length_uint64Word]),
      take_left' (length_encode _ _), decode_encode info.baseFee.isLt]
  have hhash : decode ((info.marshalBinary.drop 100).take 32) = info.blockHash.toNat := by
    unfold marshalBinary hashBytes
    rw [append_assoc, drop_left' (by simp [l1InfoFuncBytes4, length_uint64Word]),
      take_left' (length_encode _ _), decode_encode info.blockHash.isLt]
  have hseq : readUint64 info.marshalBinary 132 "sequence number" = .ok info.sequenceNumber := by
    have hsplit : info.marshalBinary = (l1InfoFuncBytes4 ++ uint64Word info.number ++
        uint64Word info.time ++ encode 32 info.baseFee.toNat ++ hashBytes info.blockHash) ++
        (uint64Word info.sequenceNumber ++ []) := by
      simp [marshalBinary]
    rw [hsplit]
    exact readUint64_append (by simp [l1InfoFuncBytes4, length_uint64Word, hashBytes]) _ _
  unfold unmarshalBinary bytesToHash
  rw [if_neg (by rw [length_marshalBinary]; decide), hnumber, htime, hseq, hfee, hhash,
    BitVec.ofNat_toNat, BitVec.ofNat_toNat, BitVec.setWidth_eq, BitVec.setWidth_eq]
  rfl

end L1BlockInfo

variable (keccak : Bytes → Hash) (codec : TxCodec) (seqNumber : Uint64)

/-- The transaction that sets the attributes of an L1 block, `seqNumber` blocks into its epoch. -/
def l1InfoDeposit (block : BlockInfo) : DepositTx :=
  let infoDat : L1BlockInfo :=
    { number := block.number
      time := block.time
      baseFee := block.baseFee
      blockHash := block.hash
      sequenceNumber := seqNumber }
  { sourceHash := l1InfoDepositSourceHash keccak block.hash seqNumber
    sender := l1InfoDepositerAddress
    recipient := some l1BlockAddress
    mint := none
    value := 0
    gas := 150000000
    isSystemTransaction := true
    data := infoDat.marshalBinary }

def l1InfoDepositBytes (l1Info : BlockInfo) : Except String Bytes :=
  match codec.marshalBinary (l1InfoDeposit keccak seqNumber l1Info) with
  | .ok opaqueL1Tx => .ok opaqueL1Tx
  | .error err => .error s!"failed to encode L1 info tx: {err}"

def l1InfoDepositTxData (data : Bytes) : Except String L1BlockInfo :=
  L1BlockInfo.unmarshalBinary data

variable {keccak codec} in
theorem l1InfoDepositBytes_eq_ok {seqNumber : Uint64} {l1Info : BlockInfo} {tx : Bytes} :
    l1InfoDepositBytes keccak codec seqNumber l1Info = .ok tx ↔
      codec.marshalBinary (l1InfoDeposit keccak seqNumber l1Info) = .ok tx := by
  unfold l1InfoDepositBytes
  cases codec.marshalBinary (l1InfoDeposit keccak seqNumber l1Info) with
  | ok => simp
  | error => simp

theorem l1InfoDepositTxData_l1InfoDeposit (block : BlockInfo) :
    l1InfoDepositTxData (l1InfoDeposit keccak seqNumber block).data =
      .ok { number := block.number, time := block.time, baseFee := block.baseFee,
            blockHash := block.hash, sequenceNumber := seqNumber } :=
  L1BlockInfo.unmarshalBinary_marshalBinary _

end Derive
