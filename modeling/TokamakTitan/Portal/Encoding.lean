import TokamakTitan.Library.Abi
import TokamakTitan.Library.Checked
import TokamakTitan.Library.RlpSplit

/-! The encoding of deposit transactions in Solidity: the RLP writer, and the transaction that a
deposit becomes on L2. -/
namespace Portal
open BigEndian Checked Rlp List

namespace RLPWriter

/-- The loop that counts the bytes of a length. Thirty-two rounds bring the factor beyond a word. -/
def lengthOfLength : ℕ → ℕ → ℕ → ℕ → Result ℕ
  | fuel + 1, len, i, lenLen =>
    if len / i ≠ 0 then
      if i * 256 < 2 ^ 256 then lengthOfLength fuel len (i * 256) (lenLen + 1)
      else .error (.panic arithmeticPanic)
    else .ok lenLen
  | 0, _, _, lenLen => .ok lenLen

def writeLength (len offset : ℕ) : Result Bytes :=
  if len < 56 then .ok [UInt8.ofNat (len + offset)]
  else match lengthOfLength 32 len 1 0 with
    | .error e => .error e
    | .ok lenLen =>
      if lenLen + offset + 55 < 256 then
        .ok (UInt8.ofNat (lenLen + offset + 55) :: (List.range lenLen).map fun i =>
          UInt8.ofNat (len / 256 ^ (lenLen - (i + 1)) % 256))
      else .error (.panic arithmeticPanic)

def writeBytes (b : Bytes) : Result Bytes :=
  if b.length = 1 ∧ (b.headD 0).toNat < 128 then .ok b
  else (writeLength b.length 128).map (· ++ b)

def writeList (items : List Bytes) : Result Bytes :=
  (writeLength items.flatten.length 192).map (· ++ items.flatten)

def writeAddress (a : Address) : Result Bytes := writeBytes (encode 20 a.toNat)

def toBinary (x : Uint256) : Bytes := (encode 32 x.toNat).dropWhile (· = 0)

def writeUint (x : Uint256) : Result Bytes := writeBytes (toBinary x)

def writeBool (b : Bool) : Bytes := [if b then 0x01 else 0x80]

end RLPWriter

structure UserDepositTransaction where
  sender : Address
  recipient : Address
  isCreation : Bool
  value : Uint256
  mint : Uint256
  gasLimit : BitVec 64
  data : Bytes
  l1BlockHash : Bytes32
  logIndex : Uint256
  deriving DecidableEq

section Encoding

open RLPWriter

variable (keccak : Bytes → Bytes32)

def hashDepositSource (l1BlockHash : Bytes32) (logIndex : Uint256) : Bytes32 :=
  let depositId := keccak (Abi.words [l1BlockHash, logIndex])
  keccak (Abi.words [0, depositId])

variable (tx : UserDepositTransaction)

def writeRecipient : Result Bytes :=
  if tx.isCreation then writeBytes [] else writeAddress tx.recipient

def encodeDepositTransaction : Result Bytes := do
  let source := hashDepositSource keccak tx.l1BlockHash tx.logIndex
  let source ← writeBytes (Abi.word source)
  let sender ← writeAddress tx.sender
  let recipient ← writeRecipient tx
  let mint ← writeUint tx.mint
  let value ← writeUint tx.value
  let gasLimit ← writeUint (tx.gasLimit.setWidth 256)
  let data ← writeBytes tx.data
  let list ← writeList [source, sender, recipient, mint, value, gasLimit, writeBool false, data]
  return 0x7e :: list

def hashDepositTransaction : Result Bytes32 :=
  (encodeDepositTransaction keccak tx).map keccak

end Encoding

namespace RLPWriter

theorem lengthOfLength_eq {len k fuel : ℕ} (hne : len ≠ 0) (hk : k ≤ byteLength len)
    (hle : byteLength len ≤ 8) (hfuel : fuel + k = 32) :
    lengthOfLength fuel len (256 ^ k) k = .ok (byteLength len) := by
  induction fuel generalizing k with
  | zero => omega
  | succ fuel ih =>
    have hmore : len / 256 ^ k ≠ 0 ↔ k < byteLength len := by
      rw [Nat.div_ne_zero_iff, byteLength, Nat.lt_succ_iff, Nat.le_log_iff_pow_le (by norm_num) hne]
      exact and_iff_right (by positivity)
    rw [lengthOfLength]
    by_cases hlt : k < byteLength len
    · have hsmall : 256 ^ k * 256 < 2 ^ 256 := by
        rw [← pow_succ]
        calc 256 ^ (k + 1) ≤ 256 ^ 8 := Nat.pow_le_pow_right (by norm_num) (by omega)
          _ < 2 ^ 256 := by norm_num
      rw [if_pos (hmore.mpr hlt), if_pos hsmall, ← pow_succ]
      exact ih (by omega) (by omega)
    · rw [if_neg (mt hmore.mp hlt)]
      congr 1
      omega

theorem map_range_eq_encode (n v : ℕ) :
    (range n).map (fun i => UInt8.ofNat (v / 256 ^ (n - (i + 1)) % 256)) = encode n v := by
  induction n generalizing v with
  | zero => rfl
  | succ n ih =>
    have hinit : (range n).map (fun i => UInt8.ofNat (v / 256 ^ (n + 1 - (i + 1)) % 256)) =
        (range n).map (fun i => UInt8.ofNat (v / 256 / 256 ^ (n - (i + 1)) % 256)) := by
      apply map_congr_left
      intro i hi
      rw [mem_range] at hi
      rw [Nat.div_div_eq_div_mul, ← pow_succ', show n - (i + 1) + 1 = n + 1 - (i + 1) by omega]
    have hlast : UInt8.ofNat (v / 256 ^ (n + 1 - (n + 1)) % 256) = UInt8.ofNat v := by
      rw [Nat.sub_self, pow_zero, Nat.div_one]
      apply UInt8.toNat_inj.mp
      simp
    rw [range_succ, map_append, hinit, ih, map_singleton, hlast, encode]

theorem writeLength_eq {n offset : ℕ} (hoffset : offset ≤ 192) (hn : n < 2 ^ 64) :
    writeLength n offset = .ok (encodeLength offset n) := by
  unfold writeLength encodeLength
  by_cases hshort : n < 56
  · rw [if_pos hshort, if_pos hshort, Nat.add_comm]
  · have hle := byteLength_le hn
    have hcount : lengthOfLength 32 n 1 0 = .ok (byteLength n) :=
      lengthOfLength_eq (k := 0) (by omega) (Nat.zero_le _) hle rfl
    rw [if_neg hshort, if_neg hshort, hcount]
    dsimp only
    rw [if_pos (by omega), map_range_eq_encode]
    congr 3
    omega

theorem writeBytes_eq {b : Bytes} (h : b.length < 2 ^ 64) :
    writeBytes b = .ok (encodeString b) := by
  unfold writeBytes encodeString
  split
  next => rfl
  next =>
    rw [writeLength_eq (by norm_num) h]
    rfl

theorem writeList_eq {items : List Bytes} (h : items.flatten.length < 2 ^ 64) :
    writeList items = .ok (encodeList items) := by
  rw [writeList, writeLength_eq (by norm_num) h]
  rfl

theorem toBinary_eq (x : Uint256) : toBinary x = uintBytes x.toNat := by
  have hhead := head?_uintBytes x.toNat
  by_cases hzero : x.toNat = 0
  · have hnil : uintBytes x.toNat = [] := by rw [hzero]; rfl
    have hdrop := dropWhile_replicate_zero 32 hhead
    rw [hnil, append_nil] at hdrop
    rw [toBinary, hnil, hzero, encode_zero]
    exact hdrop
  · have hbytes : uintBytes x.toNat = encode (byteLength x.toNat) x.toNat := if_neg hzero
    have hle : byteLength x.toNat ≤ 32 := by
      have hlog : Nat.log 256 x.toNat < 32 :=
        Nat.log_lt_of_lt_pow hzero (x.isLt.trans_le (by norm_num))
      unfold byteLength
      omega
    have hsplit := encode_add_zeros (m := 32 - byteLength x.toNat) (lt_pow_byteLength x.toNat)
    rw [Nat.sub_add_cancel hle, ← hbytes] at hsplit
    rw [toBinary, hsplit, dropWhile_replicate_zero _ hhead]

theorem length_toBinary_le (x : Uint256) : (toBinary x).length ≤ 32 := by
  have hle := Sublist.length_le (dropWhile_sublist (· = 0) (l := encode 32 x.toNat))
  rw [length_encode] at hle
  exact hle

theorem writeUint_eq (x : Uint256) : writeUint x = .ok (encodeString (uintBytes x.toNat)) := by
  have hlength := length_toBinary_le x
  rw [writeUint, writeBytes_eq (by omega), toBinary_eq]

theorem writeAddress_eq (a : Address) : writeAddress a = .ok (encodeString (encode 20 a.toNat)) :=
  writeBytes_eq (by simp)

end RLPWriter

end Portal
