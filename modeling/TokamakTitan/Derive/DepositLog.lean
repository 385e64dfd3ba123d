import TokamakTitan.Derive.Deposits
import TokamakTitan.Library.Slice

/-! The log of a user deposit: how it is written, and how it is read with the bounds of its slices
and wrapping lengths. -/
namespace Derive
open BigEndian Checked Slice List

section Unmarshal

variable (keccak : Bytes → Hash)

def unmarshalDepositVersion0Slices (dep : DepositTx) (recipient : Address) (opaqueData : Bytes) :
    Run DepositTx := do
  failIf (opaqueData.length < 32 + 32 + 8 + 1) "unexpected opaqueData length"
  let mint := decode (← slice opaqueData 0 32)
  let value := decode (← slice opaqueData 32 64)
  let gas := decode (← slice opaqueData 64 72)
  failIf (gas ≥ 2 ^ 64) "bad gas value"
  let isCreation ← element opaqueData 72
  let txDataLen := opaqueData.length - 73
  let data ← slice opaqueData 73 (73 + txDataLen)
  return { dep with
    mint := if mint = 0 then none else some mint
    value
    gas := BitVec.ofNat 64 gas
    recipient := if isCreation = 0 then some recipient else none
    data }

def unmarshalDepositLogEventSlices (ev : Log) : Run DepositTx := do
  failIf (ev.topics.length ≠ 4)
    "expected 4 event topics (event identity, indexed from, indexed to, indexed version)"
  let event ← element ev.topics 0
  failIf (event ≠ depositEventABIHash) "invalid deposit event selector"
  failIf (ev.data.length < 64) "incomplate opaqueData slice header"
  failIf (ev.data.length % 32 ≠ 0) "expected log data to be multiple of 32 bytes"
  let fromTopic ← element ev.topics 1
  let toTopic ← element ev.topics 2
  let version ← element ev.topics 3
  let opaqueContentOffset := decode (← slice ev.data 0 32)
  failIf (opaqueContentOffset ≥ 2 ^ 64 ∨ opaqueContentOffset ≠ 32)
    "invalid opaqueData slice header offset"
  let opaqueContentLength := decode (← slice ev.data 32 64)
  failIf (opaqueContentLength ≥ 2 ^ 64 ∨ opaqueContentLength > ev.data.length - 64 ∨
      (opaqueContentLength + 32) % 2 ^ 64 ≤ ev.data.length - 64)
    "invalid opaqueData slice header length"
  let opaqueData ← slice ev.data 64 (64 + opaqueContentLength)
  let dep := newDepositTx keccak ev (fromTopic.setWidth 160)
  failIf (version ≠ depositEventVersion0) "invalid deposit version"
  unmarshalDepositVersion0Slices dep (toTopic.setWidth 160) opaqueData

end Unmarshal

def marshalDepositVersion0 (deposit : DepositTx) : Bytes :=
  encode 32 (deposit.mint.getD 0) ++ (encode 32 deposit.value ++ (encode 8 deposit.gas.toNat ++
    ((if deposit.recipient = none then 1 else 0) :: deposit.data)))

def marshalDepositLogEvent (depositContractAddr : Address) (deposit : DepositTx) : Log :=
  let opaqueData := marshalDepositVersion0 deposit
  let data := uint64Word 32 ++ uint64Word (BitVec.ofNat 64 opaqueData.length) ++ opaqueData
  { address := depositContractAddr
    topics := [depositEventABIHash, deposit.sender.setWidth 256,
      (deposit.recipient.getD 0).setWidth 256, depositEventVersion0]
    data := if data.length % 32 ≠ 0 then data ++ List.replicate (32 - data.length % 32) 0 else data
    blockHash := 0
    index := 0 }

section Slices

variable {keccak : Bytes → Hash}

theorem unmarshalDepositVersion0Slices_eq (dep : DepositTx) (recipient : Address)
    (opaqueData : Bytes) :
    unmarshalDepositVersion0Slices dep recipient opaqueData =
      (unmarshalDepositVersion0 dep recipient opaqueData).mapError .error := by
  unfold unmarshalDepositVersion0Slices unmarshalDepositVersion0
  by_cases hshort : opaqueData.length < 32 + 32 + 8 + 1
  · rw [failIf_of hshort, if_pos hshort]
    rfl
  · have hmint : slice opaqueData 0 32 = .ok (opaqueData.take 32) :=
      slice_eq (by norm_num) (by omega)
    have hvalue : slice opaqueData 32 64 = .ok ((opaqueData.drop 32).take 32) :=
      slice_eq (by norm_num) (by omega)
    have hgas : slice opaqueData 64 72 = .ok ((opaqueData.drop 64).take 8) :=
      slice_eq (by norm_num) (by omega)
    have hsmall : ¬ decode ((opaqueData.drop 64).take 8) ≥ 2 ^ 64 := by
      have hlt := decode_lt ((opaqueData.drop 64).take 8)
      rw [length_take, length_drop, Nat.min_eq_left (by omega)] at hlt
      omega
    have hflag : opaqueData[72]? = some (opaqueData.get ⟨72, by omega⟩) := by simp
    have hdata : slice opaqueData 73 (73 + (opaqueData.length - 73)) =
        .ok (opaqueData.drop 73) := by
      rw [slice_eq (by omega) (by omega), take_of_length_le (by simp)]
    rw [failIf_of_not hshort, if_neg hshort, head?_drop, hflag]
    simp only [ok_bind, hmint, hvalue, hgas, failIf_of_not hsmall, element, hflag, hdata,
      Option.some.injEq]
    rfl

theorem unmarshalDepositLogEventSlices_eq {ev : Log} (hlength : ev.data.length < 2 ^ 63) :
    unmarshalDepositLogEventSlices keccak ev =
      (unmarshalDepositLogEvent keccak ev).mapError .error := by
  unfold unmarshalDepositLogEventSlices unmarshalDepositLogEvent
  by_cases htopics : ev.topics.length = 4
  · obtain ⟨event, fromTopic, toTopic, version, htopics⟩ := length_eq_four.mp htopics
    rw [htopics]
    by_cases hevent : event = depositEventABIHash
    swap
    · simp [element, ok_bind, hevent]
    by_cases hheader : ev.data.length < 64
    · simp [element, ok_bind, hevent, hheader]
    by_cases hwords : ev.data.length % 32 = 0
    swap
    · simp [element, ok_bind, hevent, hheader, hwords]
    have hfirst : slice ev.data 0 32 = .ok (ev.data.take 32) :=
      slice_eq (by norm_num) (by omega)
    have hsecond : slice ev.data 32 64 = .ok ((ev.data.drop 32).take 32) :=
      slice_eq (by norm_num) (by omega)
    by_cases hoffset : decode (ev.data.take 32) = 32
    swap
    · simp [element, ok_bind, hevent, hheader, hwords, hfirst, hoffset]
    have hword : ¬ 2 ^ 64 ≤ 32 := by norm_num
    -- the sum only wraps where the length is beyond the data already
    generalize hcount : decode ((ev.data.drop 32).take 32) = count
    have hwrap : (2 ^ 64 ≤ count ∨ ev.data.length - 64 < count ∨
        (count + 32) % 2 ^ 64 ≤ ev.data.length - 64) ↔
          2 ^ 64 ≤ count ∨ ev.data.length - 64 < count ∨ count + 32 ≤ ev.data.length - 64 := by
      omega
    by_cases hbounds :
        2 ^ 64 ≤ count ∨ ev.data.length - 64 < count ∨ count + 32 ≤ ev.data.length - 64
    · simp [-Nat.reducePow, element, ok_bind, hevent, hheader, hwords, hfirst, hoffset, hword,
        hsecond, hcount, hwrap, hbounds]
    have hopaque : slice ev.data 64 (64 + count) = .ok ((ev.data.drop 64).take count) := by
      rw [slice_eq (by omega) (by omega), Nat.add_sub_cancel_left]
    by_cases hversion : version = depositEventVersion0
    · simp [-Nat.reducePow, element, ok_bind, hevent, hheader, hwords, hfirst, hoffset, hword,
        hsecond, hcount, hwrap, hbounds, hopaque, hversion, unmarshalDepositVersion0Slices_eq]
    · simp [-Nat.reducePow, element, ok_bind, hevent, hheader, hwords, hfirst, hoffset, hword,
        hsecond, hcount, hwrap, hbounds, hopaque, hversion]
  · rw [failIf_of htopics]
    split
    next htopics' => exact absurd (by rw [htopics']; rfl) htopics
    next => rfl

end Slices

theorem unmarshalDepositLogEventSlices_ne_panic (keccak : Bytes → Hash) {ev : Log}
    (hlength : ev.data.length < 2 ^ 63) :
    unmarshalDepositLogEventSlices keccak ev ≠ .error .panic := by
  rw [unmarshalDepositLogEventSlices_eq hlength]
  cases unmarshalDepositLogEvent keccak ev with
  | error => simp [Except.mapError]
  | ok => simp [Except.mapError]

variable {deposit : DepositTx}

theorem marshalDepositLogEvent_data (depositContractAddr : Address)
    (hlength : (marshalDepositVersion0 deposit).length < 2 ^ 64) :
    (marshalDepositLogEvent depositContractAddr deposit).data =
      Abi.encodeBytes [] (marshalDepositVersion0 deposit) [] := by
  have hword (n : ℕ) (hn : n < 2 ^ 64) : uint64Word (BitVec.ofNat 64 n) = encode 32 n := by
    rw [uint64Word, BitVec.toNat_ofNat, Nat.mod_eq_of_lt hn]
    exact (encode_add_zeros (show n < 256 ^ 8 by omega)).symm
  have hoffset : uint64Word 32 = encode 32 32 := hword 32 (by norm_num)
  unfold marshalDepositLogEvent
  generalize marshalDepositVersion0 deposit = opaqueData at hlength ⊢
  have hmod : (encode 32 32 ++ encode 32 opaqueData.length ++ opaqueData).length % 32 =
      opaqueData.length % 32 := by
    simp only [length_append, length_encode]
    omega
  have hhead : Abi.encodeBytes [] opaqueData [] = encode 32 32 ++ encode 32 opaqueData.length ++
      opaqueData ++ replicate (Abi.padding opaqueData.length) 0 := by
    simp [Abi.encodeBytes, Abi.words, Abi.tail]
  rw [hhead, Abi.padding]
  dsimp only
  rw [hword _ hlength, hoffset, hmod]
  split
  next hpad => rw [Nat.mod_eq_of_lt (show 32 - opaqueData.length % 32 < 32 by omega)]
  next hfull =>
    rw [not_not.mp hfull]
    simp

theorem unmarshalDepositLogEventSlices_marshal (keccak : Bytes → Hash)
    (depositContractAddr : Address) (hmint : ∀ mint ∈ deposit.mint, 0 < mint ∧ mint < 2 ^ 256)
    (hvalue : deposit.value < 2 ^ 256) (hdata : deposit.data.length < 2 ^ 62) (blockHash : Hash)
    (index : Uint64) :
    unmarshalDepositLogEventSlices keccak
      { marshalDepositLogEvent depositContractAddr deposit with blockHash, index } =
      .ok { deposit with
        sourceHash := userDepositSourceHash keccak blockHash index
        isSystemTransaction := false } := by
  have hopaque : (marshalDepositVersion0 deposit).length = deposit.data.length + 73 := by
    simp only [marshalDepositVersion0, length_append, length_encode, length_cons]
    omega
  have hlog : (marshalDepositLogEvent depositContractAddr deposit).data = _ :=
    marshalDepositLogEvent_data depositContractAddr (by omega)
  have hlength : (Abi.encodeBytes [] (marshalDepositVersion0 deposit) []).length < 2 ^ 63 := by
    simp [Abi.encodeBytes, Abi.words, Abi.tail, Abi.padding]
    omega
  have haddress (a : Address) : BitVec.setWidth 160 (BitVec.setWidth 256 a) = a := by
    bv_omega
  have hread := @unmarshalDepositLogEvent_encodeBytes keccak
    { marshalDepositLogEvent depositContractAddr deposit with blockHash, index } _ _ _ rfl hlog
    (by omega)
  rw [haddress, haddress] at hread
  have hamount : deposit.mint.getD 0 < 2 ^ 256 := by
    cases hm : deposit.mint with
    | none => simp
    | some mint => exact (hmint mint hm).2
  rw [unmarshalDepositLogEventSlices_eq (by rwa [hlog]), mapError_eq_ok]
  refine (hread.trans (unmarshalDepositVersion0_packed _ _ hamount hvalue _ _ _)).trans ?_
  obtain ⟨source, sender, recipient, mint, value, gas, system, data⟩ := deposit
  cases mint with
  | none => cases recipient <;> rfl
  | some mint =>
    have hpos := (hmint mint rfl).1
    cases recipient <;> simp [newDepositTx, hpos.ne']

inductive DepositSource where
  | user (l1BlockHash : Hash) (logIndex : Uint64)
  | l1Info (l1BlockHash : Hash) (seqNumber : Uint64)

namespace DepositSource

variable (keccak : Bytes → Hash)

def hash : DepositSource → Hash
  | user l1BlockHash logIndex => userDepositSourceHash keccak l1BlockHash logIndex
  | l1Info l1BlockHash seqNumber => l1InfoDepositSourceHash keccak l1BlockHash seqNumber

def inputs (domain : Uint64) (l1BlockHash : Hash) (index : Uint64) : Set Bytes :=
  {hashBytes l1BlockHash ++ uint64Word index,
    uint64Word domain ++ hashBytes (keccak (hashBytes l1BlockHash ++ uint64Word index))}

def hashed : DepositSource → Set Bytes
  | user l1BlockHash logIndex => inputs keccak userDepositSourceDomain l1BlockHash logIndex
  | l1Info l1BlockHash seqNumber =>
    inputs keccak l1InfoDepositSourceDomain l1BlockHash seqNumber

end DepositSource

theorem hashBytes_inj {h h' : Hash} (heq : hashBytes h = hashBytes h') : h = h' :=
  BitVec.eq_of_toNat_eq (encode_inj_of_lt h.isLt h'.isLt heq)

theorem uint64Word_inj {n n' : Uint64} (h : uint64Word n = uint64Word n') : n = n' :=
  BitVec.eq_of_toNat_eq (encode_inj_of_lt n.isLt n'.isLt (append_cancel_left h))

variable {keccak : Bytes → Hash}

theorem sourceHash_inj {domain domain' index index' : Uint64} {l1BlockHash l1BlockHash' : Hash}
    (hkeccak : Set.InjOn keccak (DepositSource.inputs keccak domain l1BlockHash index ∪
      DepositSource.inputs keccak domain' l1BlockHash' index')) (h : sourceHash keccak domain
      l1BlockHash index = sourceHash keccak domain' l1BlockHash' index') :
    domain = domain' ∧ l1BlockHash = l1BlockHash' ∧ index = index' := by
  have houter := hkeccak (by simp [DepositSource.inputs]) (by simp [DepositSource.inputs]) h
  obtain ⟨hdomain, hid⟩ := append_inj houter (by simp [L1BlockInfo.length_uint64Word])
  have hinner := hkeccak (by simp [DepositSource.inputs]) (by simp [DepositSource.inputs])
    (hashBytes_inj hid)
  obtain ⟨hblock, hindex⟩ := append_inj hinner (by simp [hashBytes])
  exact ⟨uint64Word_inj hdomain, hashBytes_inj hblock, uint64Word_inj hindex⟩

theorem DepositSource.hash_injOn {sources : Set DepositSource}
    (hkeccak : Set.InjOn keccak (⋃ s ∈ sources, s.hashed keccak)) :
    Set.InjOn (DepositSource.hash keccak) sources := by
  intro s hs t ht h
  have hpair := hkeccak.mono (Set.union_subset (Set.subset_biUnion_of_mem hs)
    (Set.subset_biUnion_of_mem ht))
  cases s with
  | user =>
    cases t with
    | user =>
      obtain ⟨-, rfl, rfl⟩ := sourceHash_inj hpair h
      rfl
    | l1Info => exact absurd (sourceHash_inj hpair h).1 (by decide)
  | l1Info =>
    cases t with
    | user => exact absurd (sourceHash_inj hpair h).1 (by decide)
    | l1Info =>
      obtain ⟨-, rfl, rfl⟩ := sourceHash_inj hpair h
      rfl

/-- The log of a deposit is read back as the deposit at its place on L1, no log makes the reader
panic, and the source hashes of different deposits differ unless the hash collides. The flag of
system transactions is not part of a log. -/
theorem deposit_log_codec (keccak : Bytes → Hash) :
    (∀ (depositContractAddr : Address) (deposit : DepositTx) (blockHash : Hash) (index : Uint64),
      (∀ mint ∈ deposit.mint, 0 < mint ∧ mint < 2 ^ 256) → deposit.value < 2 ^ 256 →
      deposit.data.length < 2 ^ 62 → unmarshalDepositLogEventSlices keccak
        { marshalDepositLogEvent depositContractAddr deposit with blockHash, index } =
        .ok { deposit with
          sourceHash := userDepositSourceHash keccak blockHash index
          isSystemTransaction := false }) ∧
    (∀ ev : Log, ev.data.length < 2 ^ 63 →
      unmarshalDepositLogEventSlices keccak ev ≠ .error .panic) ∧
    ∀ sources : Set DepositSource, Set.InjOn keccak (⋃ s ∈ sources, s.hashed keccak) →
      Set.InjOn (DepositSource.hash keccak) sources :=
  ⟨fun depositContractAddr _ blockHash index hmint hvalue hdata =>
    unmarshalDepositLogEventSlices_marshal keccak depositContractAddr hmint hvalue hdata
      blockHash index,
    fun _ => unmarshalDepositLogEventSlices_ne_panic keccak, fun _ => DepositSource.hash_injOn⟩

end Derive
