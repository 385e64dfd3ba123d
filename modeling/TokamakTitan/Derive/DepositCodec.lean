import TokamakTitan.Derive.Types
import TokamakTitan.Trie.Reader

/-! Deposit transactions in their typed envelope: the type, followed by the fields as an RLP
list. -/
namespace Derive
open BigEndian Rlp Trie.RLPReader

namespace DepositTx

def fields (tx : DepositTx) : List Bytes :=
  [encode 32 tx.sourceHash.toNat, encode 20 tx.sender.toNat,
    (tx.recipient.map fun recipient => encode 20 recipient.toNat).getD [],
    (tx.mint.map uintBytes).getD [],
    uintBytes tx.value,
    uintBytes tx.gas.toNat,
    if tx.isSystemTransaction then [1] else [],
    tx.data]

def marshalBinary (tx : DepositTx) : Except String Bytes :=
  let items := tx.fields.map encodeString
  if items.flatten.length < 2 ^ 64 then .ok (depositTxType :: encodeList items)
  else .error "rlp: value too large"

def unmarshalBinary : Bytes → Except String Transaction
  | [] => .error "typed transaction too short"
  | type :: payload =>
    if type ≠ depositTxType then .error "transaction type not supported"
    else match readList payload with
      | .ok [_, _, _, _, _, _, _, item] =>
        match readBytes item with
        | .ok data => .ok { type, data }
        | .error _ => .error "rlp: expected input string or byte for data"
      | _ => .error "rlp: expected input list for types.DepositTx"

end DepositTx

theorem length_le_flatten {items : List Bytes} {item : Bytes} (h : item ∈ items) :
    item.length ≤ items.flatten.length := by
  rw [List.length_flatten]
  exact List.single_le_sum (by simp) _ (List.mem_map_of_mem h)

theorem encodes_of_flatten_lt {contents : List Bytes}
    (h : (contents.map encodeString).flatten.length < 2 ^ 64) :
    ∀ content ∈ contents, Encodes (encodeString content) .dataItem content := by
  intro content hmem
  apply encodes_encodeString
  have hitem : encodeString content ∈ contents.map encodeString := List.mem_map_of_mem hmem
  have hlength := length_le_flatten hitem
  have hcontent := length_le_encodeString content
  omega

theorem DepositTx.unmarshalBinary_marshalBinary {tx : DepositTx} {b : Bytes}
    (h : tx.marshalBinary = .ok b) :
    unmarshalBinary b = .ok { type := depositTxType, data := tx.data } := by
  unfold marshalBinary at h
  dsimp only at h
  split at h
  next hsize =>
    cases h
    have hfields := encodes_of_flatten_lt hsize
    have hread : readList (encodeList (tx.fields.map encodeString)) =
        .ok (tx.fields.map encodeString) := by
      refine readList_encodeList ?_ hsize (by simp [fields, maxListLength])
      intro item hitem
      obtain ⟨content, hcontent, rfl⟩ := List.mem_map.mp hitem
      exact ⟨_, _, hfields content hcontent⟩
    have hdata : readBytes (encodeString tx.data) = .ok tx.data :=
      readBytes_encodes (hfields tx.data (by simp [fields]))
    rw [unmarshalBinary, if_neg (by simp), hread]
    simp only [fields, List.map_cons, List.map_nil, hdata]
  next => cases h

def depositCodec : TxCodec where
  marshalBinary := DepositTx.marshalBinary
  unmarshalBinary := DepositTx.unmarshalBinary
  marshal_cons := by
    intro tx b h
    unfold DepositTx.marshalBinary at h
    dsimp only at h
    split at h
    next =>
      cases h
      exact ⟨_, rfl⟩
    next => cases h
  unmarshal_marshal := DepositTx.unmarshalBinary_marshalBinary

end Derive
