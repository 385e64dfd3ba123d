import TokamakTitan.Trie.MerkleTrie

/-! What the library reads in the nodes of a trie: their paths, the words that stand for their
children, and the items of a node followed by zeros. -/
namespace Trie
open Checked Rlp RLPReader BytesUtils HexTrie List UInt8

variable (path : List Nibble)

def nibbleBytes : Bytes :=
  path.map fun nibble : Nibble => UInt8.ofNat nibble

@[simp] theorem length_nibbleBytes : (nibbleBytes path).length = path.length := by
  simp [nibbleBytes]

theorem toNat_ofNat_nibble (nibble : Nibble) : (ofNat nibble).toNat = nibble := by
  have hlt := nibble.isLt
  rw [UInt8.toNat_ofNat']
  omega

theorem nibbleBytes_injective : Function.Injective nibbleBytes := by
  show Function.Injective (map fun nibble : Nibble => ofNat nibble)
  apply map_injective_iff.mpr
  intro a b h
  have hnat := congrArg toNat h
  rw [toNat_ofNat_nibble, toNat_ofNat_nibble] at hnat
  exact Fin.ext hnat

theorem toNibbles_pack (h : path.length % 2 = 0) : toNibbles (pack path) = nibbleBytes path := by
  induction path using pack.induct with
  | case1 high low rest ih =>
    have hrest := ih (by simp only [length_cons] at h; omega)
    have hhigh := high.isLt
    have hlow := low.isLt
    have hbyte : (ofNat (16 * high + low)).toNat = 16 * high + low := by
      rw [UInt8.toNat_ofNat']
      omega
    have hfirst : ofNat (16 * high + low) >>> 4 = ofNat high := by
      apply UInt8.toNat_inj.mp
      rw [UInt8.toNat_shiftRight, hbyte, toNat_ofNat_nibble]
      show (16 * high.val + low.val) >>> 4 = high.val
      rw [Nat.shiftRight_eq_div_pow]
      omega
    have hsecond : ofNat (16 * high + low) % 16 = ofNat low := by
      apply UInt8.toNat_inj.mp
      rw [UInt8.toNat_mod, hbyte, toNat_ofNat_nibble]
      show (16 * high.val + low.val) % 16 = low.val
      omega
    rw [pack, toNibbles, flatMap_cons, ← toNibbles, hrest, hfirst, hsecond]
    rfl
  | case2 path hshort =>
    rcases path with _ | ⟨high, _ | ⟨low, rest⟩⟩
    · rfl
    · simp at h
    · exact absurd rfl (hshort high low rest)

theorem toNibbles_eq (b : Bytes) : toNibbles b = nibbleBytes (nibbles b) := by
  induction b with
  | nil => rfl
  | cons x b ih =>
    have hx := x.toNat_lt
    have hfirst : x >>> 4 = ofNat (x.toNat / 16) := by
      apply UInt8.toNat_inj.mp
      rw [UInt8.toNat_shiftRight, UInt8.toNat_ofNat']
      show x.toNat >>> 4 = _
      rw [Nat.shiftRight_eq_div_pow]
      omega
    have hsecond : x % 16 = ofNat (x.toNat % 16) := by
      apply UInt8.toNat_inj.mp
      rw [UInt8.toNat_mod, UInt8.toNat_ofNat']
      show x.toNat % 16 = _
      omega
    rw [toNibbles, flatMap_cons, ← toNibbles, ih, hfirst, hsecond]
    rfl

theorem toNibbles_hexPrefix (terminal : Bool) (path : List Nibble) :
    ∃ first tail, toNibbles (hexPrefix terminal path) = first :: tail ∧
      slice (first :: tail) (2 - first.toNat % 2) = nibbleBytes path ∧
      ((first = prefixLeafEven ∨ first = prefixLeafOdd) ↔ terminal = true) ∧
      ((first = prefixExtensionEven ∨ first = prefixExtensionOdd) ↔ terminal = false) := by
  unfold hexPrefix
  by_cases heven : path.length % 2 = 0
  · rw [if_pos heven, toNibbles_pack _ (by simp only [length_cons]; omega)]
    cases terminal with
    | false => exact ⟨_, _, rfl, rfl, by decide, by decide⟩
    | true => exact ⟨_, _, rfl, rfl, by decide, by decide⟩
  · rw [if_neg heven, toNibbles_pack _ (by simp only [length_cons]; omega)]
    cases terminal with
    | false => exact ⟨_, _, rfl, rfl, by decide, by decide⟩
    | true => exact ⟨_, _, rfl, rfl, by decide, by decide⟩

theorem take_nibbleBytes_eq {path key : List Nibble} :
    (nibbleBytes key).take path.length = nibbleBytes path ↔ key.take path.length = path := by
  unfold nibbleBytes
  rw [← map_take]
  exact nibbleBytes_injective.eq_iff

theorem drop_nibbleBytes (n : ℕ) : (nibbleBytes path).drop n = nibbleBytes (path.drop n) :=
  map_drop.symm

theorem nibbleBytes_eq_nil {key : List Nibble} : nibbleBytes key = [] ↔ key = [] :=
  map_eq_nil_iff

variable (keccak : HashFunction)

/-- The word by which the walk knows a node below the root. -/
def identifierOf (encoded : Bytes) : Bytes :=
  if encoded.length < 32 then toBytes32 encoded else keccak encoded

theorem getNodeID_reference (encoded : Bytes) :
    getNodeID (reference keccak encoded) = .ok (identifierOf keccak encoded) := by
  unfold getNodeID reference identifierOf
  by_cases hshort : encoded.length < 32
  · rw [if_pos hshort, if_pos hshort, if_pos hshort]
    rfl
  · have hdigest := keccak.length_digest encoded
    have hlength := length_encodeString_digest keccak encoded
    have hread := readBytes_encodes (encodes_encodeString
      (b := keccak encoded) (by rw [hdigest]; norm_num))
    rw [if_neg hshort, if_neg hshort, if_neg (by omega), hread]
    show Except.ok (toBytes32 (keccak encoded)) = _
    rw [toBytes32_of_length hdigest]

section Encoding

variable {node : Node}

theorem encodes_reference {encoded : Bytes} (h : ∃ kind content, Encodes encoded kind content) :
    ∃ kind content, Encodes (reference keccak encoded) kind content := by
  unfold reference
  split
  next => exact h
  next =>
    have hdigest := keccak.length_digest encoded
    exact ⟨_, _, encodes_encodeString (by rw [hdigest]; norm_num)⟩

theorem encodes_node (hwf : node.WellFormed) :
    ∃ kind content, Encodes (node.encode keccak) kind content := by
  by_cases hnull : node = .null
  · rw [hnull]
    exact ⟨_, _, encodes_encodeString (b := []) (by norm_num)⟩
  · have hsize := Node.length_flatten_items_lt keccak hwf
    rw [Node.encode_eq_encodeList keccak hnull]
    exact ⟨_, _, encodes_encodeList (by omega)⟩

theorem encodes_items (hwf : node.WellFormed) :
    ∀ item ∈ node.items keccak, ∃ kind content, Encodes item kind content := by
  intro item hitem
  cases node with
  | null => cases hitem
  | leaf path value =>
    obtain ⟨-, hsize⟩ := hwf
    have hpath := length_le_encodeString (hexPrefix true path)
    have hvalue := length_le_encodeString value
    simp only [Node.items, mem_cons, not_mem_nil, or_false] at hitem
    rcases hitem with rfl | rfl
    · exact ⟨_, _, encodes_encodeString (by omega)⟩
    · exact ⟨_, _, encodes_encodeString (by omega)⟩
  | extension path =>
    obtain ⟨-, -, hchild, hsize⟩ := hwf
    have hpath := length_le_encodeString (hexPrefix false path)
    simp only [Node.items, mem_cons, not_mem_nil, or_false] at hitem
    rcases hitem with rfl | rfl
    · exact ⟨_, _, encodes_encodeString (by omega)⟩
    · exact encodes_reference keccak (encodes_node keccak hchild)
  | branch children value =>
    obtain ⟨hchildren, hsize, -⟩ := hwf
    have hvalue := length_le_encodeString value
    simp only [Node.items, mem_append, mem_ofFn, mem_singleton] at hitem
    rcases hitem with ⟨nibble, rfl⟩ | rfl
    · exact encodes_reference keccak (encodes_node keccak (hchildren nibble))
    · exact ⟨_, _, encodes_encodeString (by omega)⟩

theorem readList_zeros (hwf : node.WellFormed) (hnull : node ≠ .null) (k : ℕ) :
    readList (node.encode keccak ++ replicate k 0) =
      if (node.items keccak).length + k ≤ maxListLength then
        .ok (node.items keccak ++ replicate k [0])
      else .error (.reason "Provided RLP list exceeds max list length.") := by
  have hsize := Node.length_flatten_items_lt keccak hwf
  have hcount := node.length_items_le keccak
  rw [Node.encode_eq_encodeList keccak hnull]
  exact readList_encodeList_zeros (encodes_items keccak hwf) (by omega)
    (by unfold maxListLength; omega) k

theorem readList_encode (hwf : node.WellFormed) (hnull : node ≠ .null) :
    readList (node.encode keccak) = .ok (node.items keccak) := by
  have hcount := node.length_items_le keccak
  have hread := readList_zeros keccak hwf hnull 0
  rw [if_pos (by unfold maxListLength; omega)] at hread
  simpa using hread

theorem readList_null (items : List Bytes) (k : ℕ) :
    readList (Node.null.encode keccak ++ replicate k 0) ≠ .ok items := by
  intro hread
  obtain ⟨first, rest, hcons, hfirst, -⟩ := exists_cons_of_readList hread
  have hhead : 0x80 = first := (cons.inj hcons).1
  rw [← hhead] at hfirst
  exact absurd hfirst (by decide)

end Encoding

section Values

variable {encoded value : Bytes}

theorem getNodeValue_leaf {path : List Nibble} (hwf : (Node.leaf path value).WellFormed) :
    getNodeValue ⟨encoded, (Node.leaf path value).items keccak⟩ = .ok value := by
  obtain ⟨-, hsize⟩ := hwf
  have hlength := length_le_encodeString value
  exact readBytes_encodes (encodes_encodeString (by omega))

theorem getNodeValue_branch {children : Nibble → Node}
    (hwf : (Node.branch children value).WellFormed) :
    getNodeValue ⟨encoded, (Node.branch children value).items keccak⟩ = .ok value := by
  obtain ⟨-, hsize, -⟩ := hwf
  have hlength := length_le_encodeString value
  have hpred : pred ((Node.branch children value).items keccak).length = .ok 16 :=
    pred_eq_ok.mpr (Node.length_items_branch keccak children value)
  have hindex : index ((Node.branch children value).items keccak) 16 =
      .ok (encodeString value) := by
    rw [index_eq_ok, Node.items, getElem?_append_right (by simp)]
    simp
  unfold getNodeValue
  rw [hpred, ok_bind, hindex, ok_bind]
  exact readBytes_encodes (encodes_encodeString (by omega))

theorem readBytes_encodeList_ne {items : List Bytes} (h : items.flatten.length < 2 ^ 64) :
    readBytes (encodeList items) ≠ .ok value := by
  obtain ⟨header, -, hdecode⟩ := encodes_encodeList h
  have hread := hdecode []
  rw [append_nil] at hread
  unfold readBytes
  rw [hread, ok_bind]
  rintro ⟨⟩

/-- The item after the path of an extension reads as a value when it is a hash, and does not when
it is the child itself. -/
theorem getNodeValue_extension {path : List Nibble} {child : Node} (h : child.IsBranch)
    (hwf : child.WellFormed) :
    (32 ≤ (child.encode keccak).length →
        getNodeValue ⟨encoded, (Node.extension path child).items keccak⟩ =
          .ok (keccak (child.encode keccak))) ∧
      ((child.encode keccak).length < 32 → ∀ value,
        getNodeValue ⟨encoded, (Node.extension path child).items keccak⟩ ≠ .ok value) := by
  have hvalue : getNodeValue ⟨encoded, (Node.extension path child).items keccak⟩ =
      readBytes (reference keccak (child.encode keccak)) := rfl
  rw [hvalue]
  constructor
  · intro hlong
    have hdigest := keccak.length_digest (child.encode keccak)
    rw [reference, if_neg (by omega)]
    exact readBytes_encodes (encodes_encodeString (by omega))
  · intro hshort value
    have hnull : child ≠ .null := by
      rintro rfl
      exact h
    have hsize := Node.length_flatten_items_lt keccak hwf
    rw [reference, if_pos hshort, Node.encode_eq_encodeList keccak hnull]
    exact readBytes_encodeList_ne (by omega)

end Values

end Trie
