import TokamakTitan.Derive.DepositsOnce
import TokamakTitan.Portal.CoreUtils
import TokamakTitan.Portal.Encoding
import TokamakTitan.Portal.OptimismPortal

/-! One deposit in three implementations: the rollup node parses the log, Solidity encodes the
fields, and the TypeScript tools read the decoded event. -/
namespace Portal
open BigEndian Checked Rlp List
open CoreUtils (EthersUtils utils hexlify elementAt fromL1Event)
open CoreUtils.BigNumber (maxSafe)

def TransactionDeposited.decoded (event : TransactionDeposited) (blockHash : Bytes32)
    (index : BitVec 64) : CoreUtils.Event where
  event := "TransactionDeposited"
  sender := event.sender
  recipient := event.recipient
  version := event.version.toNat
  opaqueData := hexlify event.opaqueData
  blockHash
  logIndex := index.toNat

def userDeposit (msg : Message) (args : DepositArgs) (blockHash : Bytes32) (index : BitVec 64) :
    UserDepositTransaction where
  sender := depositor msg
  recipient := args.recipient
  isCreation := args.isCreation
  value := args.value
  mint := msg.value
  gasLimit := args.gasLimit
  data := args.data
  l1BlockHash := blockHash
  logIndex := index.setWidth 256

def deposited (keccak : Bytes → Bytes32) (msg : Message) (args : DepositArgs)
    (blockHash : Bytes32) (index : BitVec 64) : Derive.DepositTx where
  sourceHash := Derive.userDepositSourceHash keccak blockHash index
  sender := depositor msg
  recipient := if args.isCreation then none else some args.recipient
  mint := if msg.value.toNat = 0 then none else some msg.value.toNat
  value := args.value.toNat
  gas := args.gasLimit
  isSystemTransaction := false
  data := args.data

/-- The digit that the TypeScript tools take for the creation flag: the value's seventh. -/
def flagDigit (value : Uint256) : ℕ := value.toNat / 256 ^ 28 % 256 / 16

section OpaqueData

variable (args : DepositArgs) (mint : Uint256)

theorem opaqueData_take_mint : (args.opaqueData mint).take 32 = encode 32 mint.toNat :=
  take_left' (length_encode 32 _)

theorem opaqueData_drop_mint : (args.opaqueData mint).drop 32 = encode 32 args.value.toNat ++
    (encode 8 args.gasLimit.toNat ++ (boolByte args.isCreation :: args.data)) :=
  drop_left' (length_encode 32 _)

theorem opaqueData_take_value :
    ((args.opaqueData mint).drop 32).take 32 = encode 32 args.value.toNat := by
  rw [opaqueData_drop_mint]
  exact take_left' (length_encode 32 _)

theorem opaqueData_drop_value : (args.opaqueData mint).drop 64 =
    encode 8 args.gasLimit.toNat ++ (boolByte args.isCreation :: args.data) := by
  have hdrop : ((args.opaqueData mint).drop 32).drop 32 =
      encode 8 args.gasLimit.toNat ++ (boolByte args.isCreation :: args.data) := by
    rw [opaqueData_drop_mint]
    exact drop_left' (length_encode 32 _)
  rwa [drop_drop] at hdrop

theorem opaqueData_take_gas :
    ((args.opaqueData mint).drop 64).take 8 = encode 8 args.gasLimit.toNat := by
  rw [opaqueData_drop_value]
  exact take_left' (length_encode 8 _)

theorem opaqueData_drop_gas :
    (args.opaqueData mint).drop 72 = boolByte args.isCreation :: args.data := by
  have hdrop : ((args.opaqueData mint).drop 64).drop 8 =
      boolByte args.isCreation :: args.data := by
    rw [opaqueData_drop_value]
    exact drop_left' (length_encode 8 _)
  rwa [drop_drop] at hdrop

theorem opaqueData_drop_flag : (args.opaqueData mint).drop 73 = args.data := by
  have hdrop : ((args.opaqueData mint).drop 72).drop 1 = args.data := by
    rw [opaqueData_drop_gas, drop_one, tail_cons]
  rwa [drop_drop] at hdrop

theorem opaqueData_getElem? :
    (args.opaqueData mint)[35]? = some (UInt8.ofNat (args.value.toNat / 256 ^ 28 % 256)) := by
  have hget : (encode 32 args.value.toNat)[3]? =
      some (UInt8.ofNat (args.value.toNat / 256 ^ 28 % 256)) := by
    rw [← RLPWriter.map_range_eq_encode]
    rfl
  rw [show 35 = 32 + 3 by rfl, ← getElem?_drop, opaqueData_drop_mint,
    getElem?_append_left (by simp), hget]

end OpaqueData

variable {keccak : Bytes → Bytes32} {args : DepositArgs} {msg : Message}

section Node

theorem unmarshalDepositLogEvent_log (hlength : (args.opaqueData msg.value).length < 2 ^ 62)
    (portal : Address) (blockHash : Bytes32) (index : BitVec 64) :
    Derive.unmarshalDepositLogEvent keccak (TransactionDeposited.log
      { sender := depositor msg, recipient := args.recipient, version := DEPOSIT_VERSION,
        opaqueData := args.opaqueData msg.value } portal blockHash index) =
      .ok (deposited keccak msg args blockHash index) := by
  have haddress (a : Address) : BitVec.setWidth 160 (BitVec.setWidth 256 a) = a := by
    bv_omega
  have hflag : (if boolByte args.isCreation = 0 then some args.recipient else none) =
      if args.isCreation = true then none else some args.recipient := by
    cases args.isCreation <;> rfl
  rw [Derive.unmarshalDepositLogEvent_encodeBytes rfl rfl (by dsimp only; omega)]
  dsimp only [TransactionDeposited.log]
  rw [haddress, haddress]
  refine (Derive.unmarshalDepositVersion0_packed _ _ msg.value.isLt args.value.isLt _ _ _).trans ?_
  rw [hflag]
  rfl

def depositItems (keccak : Bytes → Bytes32) (msg : Message) (args : DepositArgs)
    (blockHash : Bytes32) (index : BitVec 64) : List Bytes :=
  (deposited keccak msg args blockHash index).fields.map encodeString

theorem fields_deposited (blockHash : Bytes32) (index : BitVec 64) :
    (deposited keccak msg args blockHash index).fields =
      [encode 32 (Derive.userDepositSourceHash keccak blockHash index).toNat,
        encode 20 (depositor msg).toNat,
        if args.isCreation then [] else encode 20 args.recipient.toNat,
        uintBytes msg.value.toNat,
        uintBytes args.value.toNat,
        uintBytes args.gasLimit.toNat,
        [],
        args.data] := by
  have hrecipient : ((if args.isCreation then none else some args.recipient).map
      fun recipient : Address => encode 20 recipient.toNat).getD [] =
      if args.isCreation then [] else encode 20 args.recipient.toNat := by
    cases args.isCreation <;> rfl
  have hmint : ((if msg.value.toNat = 0 then none else some msg.value.toNat).map
      uintBytes).getD [] = uintBytes msg.value.toNat := by
    by_cases hzero : msg.value.toNat = 0
    · rw [hzero]
      rfl
    · rw [if_neg hzero]
      rfl
  simp only [Derive.DepositTx.fields, deposited, hrecipient, hmint]
  rfl

variable (hdata : args.data.length < 2 ^ 62)
include hdata

variable (blockHash : Bytes32)

variable (index : BitVec 64)

theorem length_depositItems :
    (depositItems keccak msg args blockHash index).flatten.length < 2 ^ 64 := by
  have hitem (b : Bytes) (h : b.length < 2 ^ 62) := length_encodeString_le
    (show b.length < 2 ^ 64 by omega)
  have huint (x : Uint256) : (uintBytes x.toNat).length ≤ 32 := by
    rw [← RLPWriter.toBinary_eq]
    exact RLPWriter.length_toBinary_le x
  have hgas := length_uintBytes_le args.gasLimit.isLt
  have hmint := huint msg.value
  have hvalue := huint args.value
  have hrecipient : (if args.isCreation then [] else
      encode 20 args.recipient.toNat : Bytes).length ≤ 20 := by
    split <;> simp
  have h1 := hitem (encode 32 (Derive.userDepositSourceHash keccak blockHash index).toNat) (by simp)
  have h2 := hitem (encode 20 (depositor msg).toNat) (by simp)
  have h3 := hitem (if args.isCreation then [] else encode 20 args.recipient.toNat) (by omega)
  have h4 := hitem (uintBytes msg.value.toNat) (by omega)
  have h5 := hitem (uintBytes args.value.toNat) (by omega)
  have h6 := hitem (uintBytes args.gasLimit.toNat) (by omega)
  have h7 := hitem [] (by simp)
  have h8 := hitem args.data hdata
  rw [length_encode] at h1 h2
  simp only [depositItems, fields_deposited, map_cons, map_nil, flatten_cons,
    flatten_nil, length_append, length_nil] at *
  omega

theorem marshalBinary_deposited :
    (deposited keccak msg args blockHash index).marshalBinary =
      .ok (Derive.depositTxType ::
        encodeList (depositItems keccak msg args blockHash index)) := by
  have hsize : ((deposited keccak msg args blockHash index).fields.map
      encodeString).flatten.length < 2 ^ 64 := length_depositItems hdata blockHash index
  unfold Derive.DepositTx.marshalBinary depositItems
  dsimp only
  rw [if_pos hsize]

omit hdata in
theorem hashDepositSource_eq :
    hashDepositSource keccak blockHash (index.setWidth 256) =
      Derive.userDepositSourceHash keccak blockHash index := by
  have hword (n : BitVec 64) : Abi.word (n.setWidth 256) = Derive.uint64Word n := by
    have hnat : (n.setWidth 256).toNat = n.toNat := by bv_omega
    rw [Abi.word, hnat, Derive.uint64Word,
      encode_add_zeros (m := 24) (n := 8) (n.isLt.trans_le (by norm_num))]
  have hzero : Abi.word 0 = Derive.uint64Word 0 := hword 0
  simp only [hashDepositSource, Derive.userDepositSourceHash, Derive.sourceHash, Abi.words,
    flatMap_cons, flatMap_nil, append_nil, hword, hzero]
  rfl

theorem encodeDepositTransaction_userDeposit :
    encodeDepositTransaction keccak (userDeposit msg args blockHash index) =
      .ok (Derive.depositTxType ::
        encodeList (depositItems keccak msg args blockHash index)) := by
  have hgas : (args.gasLimit.setWidth 256).toNat = args.gasLimit.toNat := by bv_omega
  have hrecipient : writeRecipient (userDeposit msg args blockHash index) =
      .ok (encodeString (if args.isCreation then [] else encode 20 args.recipient.toNat)) := by
    unfold writeRecipient userDeposit
    dsimp only
    by_cases hcreation : args.isCreation = true
    · rw [if_pos hcreation, if_pos hcreation, RLPWriter.writeBytes_eq (by simp)]
    · rw [if_neg hcreation, if_neg hcreation, RLPWriter.writeAddress_eq]
  have hsource : RLPWriter.writeBytes (Abi.word (hashDepositSource keccak blockHash
      (index.setWidth 256))) = .ok (encodeString (encode 32
        (Derive.userDepositSourceHash keccak blockHash index).toNat)) := by
    rw [hashDepositSource_eq, RLPWriter.writeBytes_eq (by simp)]
    rfl
  have hsize : (depositItems keccak msg args blockHash index).flatten.length < 2 ^ 64 :=
    length_depositItems hdata blockHash index
  have hlist := RLPWriter.writeList_eq hsize
  have hbool : RLPWriter.writeBool false = encodeString [] := rfl
  have hbytes : args.data.length < 2 ^ 64 := by omega
  rw [depositItems, fields_deposited] at hlist ⊢
  unfold encodeDepositTransaction
  rw [hrecipient]
  simp only [userDeposit, hsource, RLPWriter.writeAddress_eq, RLPWriter.writeUint_eq,
    RLPWriter.writeBytes_eq hbytes, hgas, hbool, ok_bind]
  simp only [map_cons, map_nil] at hlist ⊢
  rw [hlist, ok_bind]
  rfl

end Node

/-- The transaction that the tools read: the recipient depends on a digit of the value. -/
def readDeposit (msg : Message) (args : DepositArgs) (blockHash : Bytes32) (index : BitVec 64) :
    CoreUtils.DepositTx where
  sender := depositor msg
  recipient := if flagDigit args.value = 1 then none else some args.recipient
  mint := msg.value.toNat
  value := args.value.toNat
  gas := args.gasLimit.toNat
  isSystemTransaction := false
  data := hexlify args.data
  domain := .userDeposit
  l1BlockHash := blockHash
  marker := index.toNat

theorem flagDigit_lt (value : Uint256) : flagDigit value < 16 := by
  unfold flagDigit
  omega

section Tools

variable {ethers : EthersUtils} (hethers : ethers.Lawful)
include hethers

theorem fromL1Event_decoded (msg : Message) (args : DepositArgs) (blockHash : Bytes32)
    (index : BitVec 64) :
    fromL1Event ethers (TransactionDeposited.decoded
      { sender := depositor msg, recipient := args.recipient, version := DEPOSIT_VERSION,
        opaqueData := args.opaqueData msg.value } blockHash index) =
      if flagDigit args.value < 10 then .ok (readDeposit msg args blockHash index)
      else .error "invalid BigNumber string" := by
  have hopaque := length_opaqueData args msg.value
  have hlength := CoreUtils.length_hexlify (args.opaqueData msg.value)
  have hmint : ((args.opaqueData msg.value).take 32).drop 0 = encode 32 msg.value.toNat := by
    rw [opaqueData_take_mint, drop_zero]
  have hvalue : ((args.opaqueData msg.value).take 64).drop 32 = encode 32 args.value.toNat := by
    rw [drop_take, opaqueData_take_value]
  have hgas : ((args.opaqueData msg.value).take 72).drop 64 = encode 8 args.gasLimit.toNat := by
    rw [drop_take, opaqueData_take_gas]
  have hdata : ((args.opaqueData msg.value).take (73 + ((hexlify (args.opaqueData
      msg.value)).length - 73))).drop 73 = args.data := by
    rw [take_of_length_le (by omega), opaqueData_drop_flag]
  have hnumber {w : ℕ} (n : ℕ) (x : BitVec w) (hn : n ≠ 0) (hw : 2 ^ w ≤ 256 ^ n) :
      ethers.ofString (hexlify (encode n x.toNat)) = .ok x.toNat := by
    rw [hethers.ofHex, decode_encode (x.isLt.trans_le hw)]
    intro hnil
    have hzero := congrArg length hnil
    simp [hn] at hzero
  have hbyte : (UInt8.ofNat (args.value.toNat / 256 ^ 28 % 256)).toNat / 16 =
      flagDigit args.value := by
    rw [UInt8.toNat_ofNat', flagDigit]
    simp
  have hflag : elementAt (hexlify (args.opaqueData msg.value)) 72 =
      .ok [Nat.digitChar (flagDigit args.value)] := by
    have helement := CoreUtils.elementAt_hexlify (opaqueData_getElem? args msg.value)
    rwa [hbyte] at helement
  have hsize : ¬ (hexlify (args.opaqueData msg.value)).length < 32 + 32 + 8 + 1 := by omega
  have hversion : DEPOSIT_VERSION.toNat = 0 := rfl
  unfold fromL1Event CoreUtils.unpack
  simp only [TransactionDeposited.decoded, ne_eq, not_true_eq_false, if_false, hversion,
    if_neg hsize]
  simp only [hethers.hexDataSlice, hmint, hvalue, hgas, hdata, hflag, ok_bind,
    hnumber 32 msg.value (by norm_num) (by norm_num),
    hnumber 32 args.value (by norm_num) (by norm_num),
    hnumber 8 args.gasLimit (by norm_num) (by norm_num),
    hethers.ofDigit _ (flagDigit_lt args.value)]
  by_cases hdecimal : flagDigit args.value < 10
  · rw [if_pos hdecimal, if_pos hdecimal, ok_bind]
    rfl
  · rw [if_neg hdecimal, if_neg hdecimal]
    rfl

theorem sourceHash_readDeposit (blockHash : Bytes32) (index : BitVec 64) :
    (readDeposit msg args blockHash index).sourceHash ethers keccak =
      if index.toNat < maxSafe then .ok (Derive.userDepositSourceHash keccak blockHash index)
      else .error "overflow" := by
  have hword (n : BitVec 64) : encode 32 n.toNat = Derive.uint64Word n :=
    encode_add_zeros (m := 24) (n := 8) (n.isLt.trans_le (by norm_num))
  have hdomain : ethers.zeroPad (ethers.hexBytes
      CoreUtils.SourceHashDomain.userDeposit.value) 32 = .ok (Derive.uint64Word 0) :=
    CoreUtils.zeroPad_hexBytes hethers (by decide)
  unfold CoreUtils.DepositTx.sourceHash
  by_cases hsafe : index.toNat < maxSafe
  · have hmarker : ethers.ofNumber index.toNat = .ok index.toNat := by
      rw [hethers.ofNumber, if_neg (Nat.not_le.mpr hsafe)]
    rw [if_pos hsafe]
    simp only [readDeposit, hmarker, ok_bind, CoreUtils.zeroPad_hexBytes hethers index.isLt,
      hdomain, hword]
    rfl
  · have hmarker : ethers.ofNumber index.toNat = .error "overflow" := by
      rw [hethers.ofNumber, if_pos (Nat.not_lt.mp hsafe)]
    rw [if_neg hsafe]
    simp only [readDeposit, hmarker]
    rfl

variable {blockHash : Bytes32} {index : BitVec 64}

theorem deposit_readDeposit (hsafe : index.toNat < maxSafe) :
    (readDeposit msg args blockHash index).deposit ethers keccak =
      .ok { deposited keccak msg args blockHash index with
        recipient := if flagDigit args.value = 1 then none else some args.recipient } := by
  have hgas : BitVec.ofNat 64 args.gasLimit.toNat = args.gasLimit := by
    rw [BitVec.ofNat_toNat, BitVec.setWidth_eq]
  unfold CoreUtils.DepositTx.deposit
  rw [sourceHash_readDeposit hethers, if_pos hsafe, ok_bind]
  simp only [readDeposit, hethers.arrayify, ok_bind, hgas]
  rfl

theorem encode_readDeposit (hsafe : index.toNat < maxSafe)
    (hflag : flagDigit args.value = 1 ↔ args.isCreation = true) :
    (readDeposit msg args blockHash index).encode ethers keccak =
      .ok (Derive.depositTxType ::
        encodeList (depositItems keccak msg args blockHash index)) := by
  have huint (x : Uint256) : (uintBytes x.toNat).length ≤ 32 := by
    rw [← RLPWriter.toBinary_eq]
    exact RLPWriter.length_toBinary_le x
  have hgas := length_uintBytes_le args.gasLimit.isLt
  have hrecipient : ((if flagDigit args.value = 1 then none else some args.recipient).map
      fun recipient : Address => encode 20 recipient.toNat).getD [] =
      if args.isCreation = true then [] else encode 20 args.recipient.toNat := by
    by_cases hcreation : args.isCreation = true
    · rw [if_pos (hflag.mpr hcreation), if_pos hcreation]
      rfl
    · rw [if_neg (mt hflag.mp hcreation), if_neg hcreation]
      rfl
  rw [depositItems, fields_deposited]
  unfold CoreUtils.DepositTx.encode
  rw [sourceHash_readDeposit hethers, if_pos hsafe, ok_bind]
  simp only [readDeposit, CoreUtils.formatNumber_eq hethers (huint msg.value),
    CoreUtils.formatNumber_eq hethers (huint args.value),
    CoreUtils.formatNumber_eq hethers (hgas.trans (by norm_num)), hethers.arrayify, ok_bind,
    hrecipient]
  rfl

end Tools

theorem recipient_eq_iff {digit : ℕ} {isCreation : Bool} {recipient : Address} :
    (if digit = 1 then none else some recipient) =
      (if isCreation = true then none else some recipient) ↔ (digit = 1 ↔ isCreation = true) := by
  by_cases hdigit : digit = 1
  · cases isCreation with
    | true => simp [hdigit]
    | false => simp [hdigit]
  · cases isCreation with
    | true => simp [hdigit]
    | false => simp [hdigit]

/-- Every deposit is parsed by the rollup node and encoded by Solidity as the same transaction. The
TypeScript tools agree exactly when the digit that they take for the creation flag is decimal and
tells the flag, and the log index is a safe integer. -/
theorem deposit_agreement_iff {ethers : EthersUtils} (hethers : ethers.Lawful)
    {keccak : Bytes → Bytes32} {powWad : ℤ → ℤ → Result ℤ} {block : Block} {msg : Message}
    {args : DepositArgs} {params next : ResourceParams} {event : TransactionDeposited}
    (hcall : depositTransaction powWad block msg args params = .ok (next, event))
    (portal : Address) (blockHash : Bytes32) (index : BitVec 64) :
    ∃ dep encoded,
      Derive.unmarshalDepositLogEvent keccak (event.log portal blockHash index) = .ok dep ∧
      dep.marshalBinary = .ok encoded ∧
      encodeDepositTransaction keccak (userDeposit msg args blockHash index) = .ok encoded ∧
      hashDepositTransaction keccak (userDeposit msg args blockHash index) =
        .ok (keccak encoded) ∧
      ((∃ tx, fromL1Event ethers (event.decoded blockHash index) = .ok tx ∧
          tx.deposit ethers keccak = .ok dep ∧ tx.encode ethers keccak = .ok encoded ∧
          tx.hash ethers keccak = .ok (keccak encoded)) ↔
        index.toNat < maxSafe ∧ flagDigit args.value < 10 ∧
          (flagDigit args.value = 1 ↔ args.isCreation = true)) := by
  obtain ⟨-, hgas, rfl⟩ := depositTransaction_eq_ok hcall
  have hlength := length_lt_of_memoryGas hgas
  have hdata : args.data.length < 2 ^ 62 := by
    rw [length_opaqueData] at hlength
    omega
  have hencode : encodeDepositTransaction keccak (userDeposit msg args blockHash index) = _ :=
    encodeDepositTransaction_userDeposit hdata blockHash index
  refine ⟨_, _, unmarshalDepositLogEvent_log hlength portal blockHash index,
    marshalBinary_deposited hdata blockHash index, hencode, ?_, ?_⟩
  · rw [hashDepositTransaction, hencode]
    rfl
  · rw [fromL1Event_decoded hethers]
    constructor
    · rintro ⟨tx, hread, hdeposit, -, -⟩
      by_cases hdecimal : flagDigit args.value < 10
      · rw [if_pos hdecimal] at hread
        obtain rfl := Except.ok.inj hread
        by_cases hsafe : index.toNat < maxSafe
        · rw [deposit_readDeposit hethers hsafe] at hdeposit
          have hrecipient := congrArg Derive.DepositTx.recipient (Except.ok.inj hdeposit)
          exact ⟨hsafe, hdecimal, recipient_eq_iff.mp hrecipient⟩
        · rw [CoreUtils.DepositTx.deposit, sourceHash_readDeposit hethers, if_neg hsafe] at hdeposit
          cases hdeposit
      · rw [if_neg hdecimal] at hread
        cases hread
    · rintro ⟨hsafe, hdecimal, hflag⟩
      have htx : (readDeposit msg args blockHash index).encode ethers keccak = _ :=
        encode_readDeposit hethers hsafe hflag
      refine ⟨readDeposit msg args blockHash index, if_pos hdecimal, ?_, htx, ?_⟩
      · rw [deposit_readDeposit hethers hsafe, recipient_eq_iff.mpr hflag]
        rfl
      · rw [CoreUtils.DepositTx.hash, htx]
        rfl

def portalMessage : Message where
  sender := 0xe0a
  origin := 0xe0a
  value := 7
  gas := 1000000

variable (isCreation : Bool)

def portalArgs : DepositArgs where
  recipient := if isCreation then 0 else 0xa2
  value := 5
  gasLimit := 21000
  isCreation
  data := [0x60, 0x01]

def portalParams : ResourceParams where
  prevBaseFee := 1000000000
  prevBoughtGas := 0
  prevBlockNum := 100

def portalCall : Result (ResourceParams × TransactionDeposited) :=
  depositTransaction (fun _ _ => .error .bare) { number := 100, basefee := 1000000000 }
    portalMessage (portalArgs isCreation) portalParams

def portalEvent : TransactionDeposited where
  sender := 0xe0a
  recipient := if isCreation then 0 else 0xa2
  version := 0
  opaqueData := (portalArgs isCreation).opaqueData 7

def boughtParams : ResourceParams := { portalParams with prevBoughtGas := 21000 }

/-- The source hashes of the sample, and the hashes of the transactions: the call, the creation, and
a call of the zero address. -/
def portalKeccak256 (b : Bytes) : Bytes32 :=
  let fields (recipient : Bytes) : Bytes := 0x7e :: encodeList ([
    encode 32 0x6e94ec949e5f1b1f0d872c8de6f57c0da5ce382d7fc3d8e9b6b83540749a6f0f,
    encode 20 0xe0a, recipient, [7], [5], [0x52, 0x08], [], [0x60, 0x01]].map encodeString)
  if b = fields (encode 20 0xa2) then
    0x96ceb79a55720dda5f8f5eade5bef73078f6cb28e198ff2fdf5611a743ab24d3
  else if b = fields [] then
    0x4e1c480002c38f0323f10053e7250d633a6c72f7eef28b30baf49184ff6ceb0f
  else if b = fields (encode 20 0) then
    0xbd0858224c4bb7579b919ef0e7972eb11085e0bc29a045b9f34091b30fcac6f8
  else Derive.epochKeccak256 b

theorem deposit_agreement_call :
    portalCall false = .ok (boughtParams, portalEvent false) ∧
    ∃ dep encoded tx,
      Derive.unmarshalDepositLogEvent portalKeccak256 ((portalEvent false).log 0x69 0xb1 0) =
        .ok dep ∧
      dep.marshalBinary = .ok encoded ∧
      encodeDepositTransaction portalKeccak256
        (userDeposit portalMessage (portalArgs false) 0xb1 0) = .ok encoded ∧
      fromL1Event utils ((portalEvent false).decoded 0xb1 0) = .ok tx ∧
      tx.deposit utils portalKeccak256 = .ok dep ∧
      tx.hash utils portalKeccak256 = .ok (portalKeccak256 encoded) := by
  have hcall : portalCall false = .ok (boughtParams, portalEvent false) := by decide +kernel
  obtain ⟨dep, encoded, hparse, hmarshal, hencode, -, htools⟩ :=
    @deposit_agreement_iff utils CoreUtils.utils_lawful portalKeccak256 _ _ _ _ _ _ _ hcall 0x69
      0xb1 0
  obtain ⟨tx, hread, hdeposit, -, hhash⟩ := htools.mpr (by decide +kernel)
  exact ⟨hcall, dep, encoded, tx, hparse, hmarshal, hencode, hread, hdeposit, hhash⟩

/-- A contract creation: the tools read a call of the zero address, which has another hash. -/
theorem creation_read_as_call :
    portalCall true = .ok (boughtParams, portalEvent true) ∧
    (fromL1Event utils ((portalEvent true).decoded 0xb1 0)).map CoreUtils.DepositTx.recipient =
      .ok (some 0) ∧
    (fromL1Event utils ((portalEvent true).decoded 0xb1 0) >>=
        fun tx => tx.hash utils portalKeccak256) =
      .ok 0xbd0858224c4bb7579b919ef0e7972eb11085e0bc29a045b9f34091b30fcac6f8 ∧
    hashDepositTransaction portalKeccak256 (userDeposit portalMessage (portalArgs true) 0xb1 0) =
      .ok 0x4e1c480002c38f0323f10053e7250d633a6c72f7eef28b30baf49184ff6ceb0f ∧
    (Derive.unmarshalDepositLogEvent portalKeccak256 ((portalEvent true).log 0x69 0xb1 0)).map
      Derive.DepositTx.recipient = .ok none := by
  decide +kernel

end Portal
