import TokamakTitan.Trie.RlpMemory

/-! Values that the RLP writer writes and the reader reads back: byte strings, words, addresses,
booleans and lists. -/
namespace LibRLPReader
open BigEndian Checked Rlp List
open Trie.RLPReader (maxListLength Encodes)

inductive Value where
  | bytes (b : Bytes)
  | uint (x : Uint256)
  | address (a : Address)
  | bool (b : Bool)
  | list (items : List Bytes)
  deriving DecidableEq

namespace Value

/-- A list is written from the pointers to its items. -/
def write (heap : Heap) (pointers : List ℕ) : Value → Result Bytes
  | bytes b => LibRLPWriter.writeBytes b
  | uint x => LibRLPWriter.writeUint x
  | address a => LibRLPWriter.writeAddress a
  | bool b => .ok (LibRLPWriter.writeBool b)
  | list _ => LibRLPWriter.writeList heap pointers

def Stored (heap : Heap) (pointers : List ℕ) : Value → Prop
  | list items => pointers.map heap.memory.bytesAt = items ∧
      ∀ p ∈ pointers, p + 32 + (heap.memory.mload p).toNat ≤ heap.free
  | _ => True

def encoding : Value → Bytes
  | bytes b => encodeString b
  | uint x => encodeString (uintBytes x.toNat)
  | address a => encodeString (encode 20 a.toNat)
  | bool b => encodeString (uintBytes b.toNat)
  | list items => encodeList items

def readBack (heap : Heap) (item : RLPItem) : Value → Result Value
  | bytes _ => ((readBytes heap item).map fun out => out.2.memory.bytesAt out.1).map bytes
  | uint _ => (readUint256 heap.memory item).map uint
  | address _ => (readAddress heap.memory item).map address
  | bool _ => (readBool heap.memory item).map bool
  | list _ => ((readList heap.memory item).map (·.map (·.bytes heap.memory))).map list

/-- Values of fewer than `2 ^ 64` bytes. The items of a list are encodings themselves. -/
inductive Encodable : Value → Prop
  | bytes {b} (h : b.length < 2 ^ 64) : Encodable (bytes b)
  | uint (x) : Encodable (uint x)
  | address (a) : Encodable (address a)
  | bool (b) : Encodable (bool b)
  | list {items : List Bytes} {values : List Value} (hcount : items.length ≤ maxListLength)
      (hsize : items.flatten.length < 2 ^ 64) (hvalues : ∀ v ∈ values, Encodable v)
      (hitems : items = values.map encoding) : Encodable (list items)

variable {v : Value} {heap : Heap} {item : RLPItem}

theorem Encodable.write_eq (h : v.Encodable) {pointers : List ℕ}
    (hstored : v.Stored heap pointers) : v.write heap pointers = .ok v.encoding := by
  cases h with
  | bytes h => exact Portal.RLPWriter.writeBytes_eq h
  | uint x => exact Portal.RLPWriter.writeUint_eq x
  | address a => exact Portal.RLPWriter.writeAddress_eq a
  | bool b =>
    cases b with
    | false => rfl
    | true => rfl
  | list hcount hsize =>
    obtain ⟨rfl, hbelow⟩ := hstored
    rw [write, LibRLPWriter.writeList_eq hbelow (hsize.trans (by norm_num))]
    exact Portal.RLPWriter.writeList_eq hsize

theorem length_uintBytes_le_word (x : Uint256) : (uintBytes x.toNat).length ≤ 32 := by
  rw [← Portal.RLPWriter.toBinary_eq]
  exact Portal.RLPWriter.length_toBinary_le x

theorem Encodable.encodes (h : v.Encodable) : ∃ kind content, Encodes v.encoding kind content := by
  cases h with
  | bytes h => exact ⟨_, _, Trie.RLPReader.encodes_encodeString h⟩
  | uint x =>
    have hlength := length_uintBytes_le_word x
    exact ⟨_, _, Trie.RLPReader.encodes_encodeString (by omega)⟩
  | address => exact ⟨_, _, Trie.RLPReader.encodes_encodeString (by rw [length_encode]; norm_num)⟩
  | bool b =>
    refine ⟨_, _, Trie.RLPReader.encodes_encodeString ?_⟩
    cases b with
    | false => decide
    | true => decide
  | list hcount hsize => exact ⟨_, _, Trie.RLPReader.encodes_encodeList hsize⟩

theorem readAddress_eq {a : Address} {m : Memory}
    (hitem : item.bytes m = encodeString (encode 20 a.toNat)) : readAddress m item = .ok a := by
  have hlength : item.length = 21 := by
    have hbytes := congrArg length hitem
    rw [RLPItem.bytes, Memory.length_load] at hbytes
    rw [hbytes, encodeString_header (by simp), length_append, length_encode,
      encodeLength_short _ (by norm_num), length_singleton]
  have hlt : a.toNat < 256 ^ 20 := a.isLt.trans_le (by norm_num)
  unfold readAddress readUint256 require
  rw [if_neg (by omega), if_pos hlength, ok_bind, readBytes32_eq hitem (by simp), ok_bind,
    decode_encode hlt]
  refine congrArg Except.ok (BitVec.eq_of_toNat_eq ?_)
  rw [BitVec.toNat_setWidth, BitVec.toNat_ofNat]
  omega

theorem readBool_eq {m : Memory} {x : UInt8} (hitem : item.bytes m = [x]) : readBool m item =
    if x.toNat = 0 ∨ x.toNat = 1 then .ok (decide (x.toNat ≠ 0))
    else .error (.reason "Lib_RLPReader: Invalid RLP boolean value, must be 0 or 1") := by
  have hlength := congrArg length hitem
  rw [RLPItem.bytes, Memory.length_load, length_singleton] at hlength
  have hfirst : m item.ptr = x := by
    rw [RLPItem.bytes, hlength] at hitem
    simpa [Memory.load] using hitem
  unfold readBool require
  rw [if_pos hlength, ok_bind, byteZero_mload, hfirst]
  dsimp only
  by_cases hbool : x.toNat = 0 ∨ x.toNat = 1
  · rw [if_pos hbool, if_pos hbool]
    rfl
  · rw [if_neg hbool, if_neg hbool]
    rfl

/-- What was written is the encoding of the specification, and is read back wherever it lies in
memory, except for the boolean `false`: it is written as the empty string, and the reader asks for a
zero. -/
theorem legacy_rlp_round_trip_iff (h : v.Encodable) {pointers : List ℕ} {writing reading : Heap}
    (hstored : v.Stored writing pointers) (hitem : item.bytes reading.memory = v.encoding)
    (hbelow : item.ptr + item.length ≤ reading.free) :
    (v.write writing pointers = .ok v.encoding ∧ v.readBack reading item = .ok v) ↔
      v ≠ .bool false := by
  rw [and_iff_right (h.write_eq hstored)]
  cases h with
  | bytes h =>
    refine iff_of_true ?_ (by simp)
    rw [readBack, readBytes_eq hbelow, hitem, encoding,
      Trie.RLPReader.readBytes_encodes (Trie.RLPReader.encodes_encodeString h)]
    rfl
  | uint x =>
    refine iff_of_true ?_ (by simp)
    rw [readBack, readUint256, readBytes32_eq hitem (length_uintBytes_le_word x), decode_uintBytes,
      BitVec.ofNat_toNat, BitVec.setWidth_eq]
    rfl
  | address =>
    refine iff_of_true ?_ (by simp)
    rw [readBack, readAddress_eq hitem]
    rfl
  | bool b =>
    rw [readBack]
    cases b with
    | false =>
      rw [readBool_eq hitem]
      exact iff_of_false (fun hread => by cases hread) (by simp)
    | true =>
      rw [readBool_eq hitem]
      exact iff_of_true rfl (by simp)
  | @list items values hcount hsize hvalues hitems =>
    refine iff_of_true ?_ (by simp)
    have hencodes : ∀ item ∈ items, ∃ kind content, Encodes item kind content := by
      intro item hmem
      rw [hitems, mem_map] at hmem
      obtain ⟨v, hv, rfl⟩ := hmem
      exact (hvalues v hv).encodes
    rw [readBack, readList_eq, hitem, encoding,
      Trie.RLPReader.readList_encodeList hencodes hsize hcount]
    rfl

def nestedList : Value := list [[0x82, 0x01, 0x00], [0xc1, 0x07]]

/-- The items of the list in memory that was used before. -/
def nestedItems : Heap where
  memory := Memory.store
    (.mstore (.store (.mstore (fun _ => 0xff) 128 3) 160 [0x82, 0x01, 0x00]) 192 2) 224 [0xc1, 0x07]
  free := 256

def nestedEncoding : Heap where
  memory := Memory.store (.mstore (fun _ => 0xff) 128 6) 160 [0xc5, 0x82, 0x01, 0x00, 0xc1, 0x07]
  free := 192

theorem legacy_rlp_round_trip_list :
    nestedList.Encodable ∧ nestedList.Stored nestedItems [128, 192] ∧
      nestedList.write nestedItems [128, 192] = .ok [0xc5, 0x82, 0x01, 0x00, 0xc1, 0x07] ∧
      nestedList.readBack nestedEncoding (toRLPItem nestedEncoding.memory 128) =
        .ok nestedList := by
  have hinner : Encodable (list [[0x07]]) := by
    have hvalues : ∀ v ∈ [bytes [0x07]], Encodable v := by
      simpa using Encodable.bytes (b := [0x07]) (by decide)
    exact .list (by decide) (by decide) hvalues rfl
  have hlist : nestedList.Encodable := by
    have hvalues : ∀ v ∈ [uint 256, list [[0x07]]], Encodable v := by
      simpa using ⟨Encodable.uint 256, hinner⟩
    exact .list (by decide) (by decide) hvalues (by decide)
  have hstored : nestedList.Stored nestedItems [128, 192] :=
    ⟨by decide +kernel, by decide +kernel⟩
  have hitem : (toRLPItem nestedEncoding.memory 128).bytes nestedEncoding.memory =
      nestedList.encoding := by
    decide +kernel
  have hround := (legacy_rlp_round_trip_iff hlist hstored hitem (by decide +kernel)).mpr
    (by simp [nestedList])
  exact ⟨hlist, hstored, hround⟩

def falseEncoding : Heap where
  memory := Memory.store (fun _ => 0) 0 [0x80]
  free := 1

theorem false_not_read_back :
    (bool false).write falseEncoding [] = .ok [0x80] ∧
      RLPItem.bytes ⟨1, 0⟩ falseEncoding.memory = [0x80] ∧
      (bool false).readBack falseEncoding ⟨1, 0⟩ =
        .error (.reason "Lib_RLPReader: Invalid RLP boolean value, must be 0 or 1") := by
  decide +kernel

end Value

end LibRLPReader
