import TokamakTitan.Library.RlpSplit
import TokamakTitan.Derive.Types

/-! Batches in their typed envelope: the type, followed by the fields as an RLP list. -/
namespace Derive
open BigEndian Rlp List

namespace BatchData

def batchV1Type : UInt8 := 0

variable (batch : BatchData)

def fields : List Bytes :=
  [encodeString (encode 32 batch.parentHash.toNat), encodeString (uintBytes batch.epochNum.toNat),
    encodeString (encode 32 batch.epochHash.toNat),
    encodeString (uintBytes batch.timestamp.toNat),
    encodeList (batch.transactions.map encodeString)]

def encodeTyped : Bytes := batchV1Type :: encodeList batch.fields

def encodeRLP : Bytes := encodeString batch.encodeTyped

def decodeV1 (data : Bytes) : Option BatchData := do
  let (fields, rest) ← splitList data
  let (parentHash, fields) ← splitFixed 32 fields
  let (epochNum, fields) ← splitUint 8 fields
  let (epochHash, fields) ← splitFixed 32 fields
  let (timestamp, fields) ← splitUint 8 fields
  let (items, fields) ← splitList fields
  let transactions ← splitStrings items.length items
  if rest = [] ∧ fields = [] then
    some {
      parentHash := BitVec.ofNat 256 (decode parentHash)
      epochNum := BitVec.ofNat 64 epochNum
      epochHash := BitVec.ofNat 256 (decode epochHash)
      timestamp := BitVec.ofNat 64 timestamp
      transactions }
  else none

def decodeTyped : Bytes → Except String BatchData
  | [] => .error "batch too short"
  | type :: data =>
    if type = batchV1Type then
      match decodeV1 data with
      | none => .error "rlp: invalid input for derive.BatchV1"
      | some batch => .ok batch
    else .error s!"unrecognized batch type: {type}"

theorem ofNat_decode_encode {w : ℕ} (n : ℕ) (x : BitVec w) (h : 2 ^ w ≤ 256 ^ n) :
    BitVec.ofNat w (decode (encode n x.toNat)) = x := by
  rw [decode_encode (x.isLt.trans_le h), BitVec.ofNat_toNat, BitVec.setWidth_eq]

theorem length_le_encodeRLP :
    batch.encodeTyped.length ≤ batch.encodeRLP.length := length_le_encodeString _

variable {batch : BatchData}

theorem decodeV1_encodeList (h : (encodeList batch.fields).length < 2 ^ 64) :
    decodeV1 (encodeList batch.fields) = some batch := by
  have hfields : batch.fields.flatten.length < 2 ^ 64 := (length_flatten_lt _).trans h
  have hitems : (batch.transactions.map encodeString).flatten.length < 2 ^ 64 := by
    have hlist := length_flatten_lt (batch.transactions.map encodeString)
    have hlast : (encodeList (batch.transactions.map encodeString)).length ≤
        batch.fields.flatten.length := by
      simp [fields]
      omega
    omega
  have hlengths : ∀ tx ∈ batch.transactions, tx.length ≤ (encodeString tx).length ∧
      (encodeString tx).length ≤ (batch.transactions.map encodeString).flatten.length := by
    intro tx htx
    refine ⟨length_le_encodeString tx, ?_⟩
    rw [length_flatten]
    exact single_le_sum (by simp) _ (mem_map_of_mem (mem_map_of_mem htx))
  have hcount : batch.transactions.length ≤
      (batch.transactions.map encodeString).flatten.length := by
    rw [length_flatten, map_map, ← length_map (length ∘ encodeString)]
    apply length_le_sum_of_one_le
    intro n hn
    obtain ⟨tx, _, rfl⟩ := mem_map.mp hn
    exact length_encodeString_pos tx
  have hsplit : splitList (encodeList batch.fields) = some (batch.fields.flatten, []) := by
    simpa using splitList_encodeList hfields []
  have hstrings := splitStrings_encodeString
    (fun tx htx => ((hlengths tx htx).1.trans (hlengths tx htx).2).trans_lt hitems) hcount
  have hcontent : batch.fields.flatten =
      encodeString (encode 32 batch.parentHash.toNat) ++
        (encodeString (uintBytes batch.epochNum.toNat) ++
          (encodeString (encode 32 batch.epochHash.toNat) ++
            (encodeString (uintBytes batch.timestamp.toNat) ++
              (encodeList (batch.transactions.map encodeString) ++ [])))) := by
    simp [fields]
  unfold decodeV1
  rw [hsplit, hcontent]
  simp only [Option.bind_eq_bind, Option.bind_some,
    splitFixed_encodeString (length_encode 32 _) (by norm_num : 32 < 2 ^ 64),
    splitUint_encodeString (BitVec.isLt _), splitList_encodeList hitems, hstrings]
  simp only [and_self, if_true, ofNat_decode_encode 32 _ (by norm_num : 2 ^ 256 ≤ 256 ^ 32),
    BitVec.ofNat_toNat, BitVec.setWidth_eq]

theorem decodeTyped_encodeTyped (h : batch.encodeTyped.length < 2 ^ 64) :
    decodeTyped batch.encodeTyped = .ok batch := by
  have hlist : (encodeList batch.fields).length < 2 ^ 64 := by
    rw [encodeTyped, length_cons] at h
    omega
  rw [encodeTyped, decodeTyped, if_pos rfl, decodeV1_encodeList hlist]

end BatchData

end Derive
