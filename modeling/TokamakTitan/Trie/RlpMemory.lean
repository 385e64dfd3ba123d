import TokamakTitan.Library.Memory
import TokamakTitan.Portal.Encoding
import TokamakTitan.Trie.Reader

/-! The RLP reader and the RLP writer on memory, where an item is a pointer with a length and copies
go word by word. What they compute is what the functions on byte strings compute. -/
namespace LibRLPReader
open BigEndian Checked Rlp List Memory
open Trie.RLPReader (RLPItemType headerOf longHeader maxListLength)

structure RLPItem where
  length : ℕ
  ptr : ℕ

def RLPItem.bytes (item : RLPItem) (m : Memory) : Bytes := m.load item.ptr item.length

def toRLPItem (m : Memory) (input : ℕ) : RLPItem where
  length := (m.mload input).toNat
  ptr := input + 32

def byteZero (w : Uint256) : ℕ := w.toNat / 256 ^ 31

section Reading

variable (m : Memory) (item : RLPItem)

def decodeLength : Result (ℕ × ℕ × RLPItemType) := do
  require (item.length > 0) "RLP item cannot be null."
  headerOf item.length (byteZero (m.mload item.ptr)) fun lenOfLen =>
    (m.mload (item.ptr + 1)).toNat / 256 ^ (32 - lenOfLen)

/-- The loop of `readList`, where `rest` is what lies behind the offset. -/
def readItems : ℕ → RLPItem → Result (List RLPItem)
  | 0, rest =>
    if rest.length = 0 then .ok []
    else .error (.reason "Provided RLP list exceeds max list length.")
  | room + 1, rest =>
    if rest.length = 0 then .ok []
    else do
      let (itemOffset, itemLength, _) ← decodeLength m rest
      let items ← readItems room
        ⟨rest.length - (itemOffset + itemLength), rest.ptr + (itemOffset + itemLength)⟩
      return ⟨itemOffset + itemLength, rest.ptr⟩ :: items

def readList : Result (List RLPItem) := do
  let (listOffset, _, itemType) ← decodeLength m item
  require (itemType = .listItem) "Invalid RLP list value."
  readItems m maxListLength ⟨item.length - listOffset, item.ptr + listOffset⟩

def readBytes32 : Result Uint256 := do
  require (item.length ≤ 33) "Invalid RLP bytes32 value."
  let (itemOffset, itemLength, itemType) ← decodeLength m item
  require (itemType = .dataItem) "Invalid RLP bytes32 value."
  let out := m.mload (item.ptr + itemOffset)
  -- The power is zero for an empty item, and so is the quotient.
  return if itemLength < 32 then out / BitVec.ofNat 256 (256 ^ (32 - itemLength)) else out

def readUint256 : Result Uint256 := readBytes32 m item

def readBool : Result Bool := do
  require (item.length = 1) "Invalid RLP boolean value."
  let out := byteZero (m.mload item.ptr)
  require (out = 0 ∨ out = 1) "Lib_RLPReader: Invalid RLP boolean value, must be 0 or 1"
  return decide (out ≠ 0)

def readAddress : Result Address :=
  if item.length = 1 then .ok 0
  else do
    require (item.length = 21) "Invalid RLP address value."
    let value ← readUint256 m item
    return value.setWidth 160

end Reading

section Copying

variable (heap : Heap) (item : RLPItem)

def copy (src offset length : ℕ) : ℕ × Heap :=
  let out := heap.free
  let heap := heap.newBytes length
  if length = 0 then (out, heap)
  else (out, { heap with memory := heap.memory.copy (out + 32) (src + offset) length })

def readBytes : Result (ℕ × Heap) := do
  let (itemOffset, itemLength, itemType) ← decodeLength heap.memory item
  require (itemType = .dataItem) "Invalid RLP bytes value."
  return copy heap item.ptr itemOffset itemLength

def readRawBytes : ℕ × Heap := copy heap item.ptr 0 item.length

end Copying

variable {m : Memory} {item : RLPItem} {heap : Heap}

theorem byteZero_mload (m : Memory) (p : ℕ) : byteZero (m.mload p) = (m p).toNat := by
  rw [byteZero, show 31 = 32 - 1 by rfl, mload_div (by norm_num)]
  simp [load, decode]

theorem longHeader_congr {length k a b : ℕ} (h : k < length → a = b) (kind : RLPItemType)
    (lengthMessage message : String) :
    longHeader length k a kind lengthMessage message =
      longHeader length k b kind lengthMessage message := by
  unfold longHeader
  by_cases hlt : k < length
  · rw [h hlt]
  · unfold require
    rw [if_neg hlt]
    rfl

theorem headerOf_congr {length first : ℕ} {f g : ℕ → ℕ} (hfirst : first < 256)
    (h : ∀ k ≤ 8, k < length → f k = g k) : headerOf length first f = headerOf length first g := by
  unfold headerOf
  rw [longHeader_congr (h (first - 0xf7) (by omega))]
  split
  next => rfl
  next =>
    split
    next => rfl
    next =>
      split
      next => rw [longHeader_congr (h (first - 0xb7) (by omega))]
      next => rfl

theorem bytes_succ (m : Memory) (n ptr : ℕ) :
    RLPItem.bytes ⟨n + 1, ptr⟩ m = m ptr :: m.load (ptr + 1) n := by
  rw [RLPItem.bytes, Nat.add_comm n, load_add]
  rfl

theorem decodeLength_eq (m : Memory) (item : RLPItem) :
    decodeLength m item = Trie.RLPReader.decodeLength (item.bytes m) := by
  obtain ⟨length, ptr⟩ := item
  cases length with
  | zero => rfl
  | succ n =>
    unfold decodeLength require
    rw [if_pos (Nat.succ_pos n), ok_bind, bytes_succ, Trie.RLPReader.decodeLength, length_load,
      byteZero_mload]
    apply headerOf_congr (UInt8.toNat_lt _)
    intro k hk hlt
    rw [mload_div (by omega), take_load (Nat.lt_succ_iff.mp hlt)]

theorem readItems_eq (m : Memory) (room : ℕ) (rest : RLPItem) :
    (readItems m room rest).map (·.map (·.bytes m)) =
      Trie.RLPReader.readItems room (rest.bytes m) := by
  induction room generalizing rest with
  | zero =>
    obtain ⟨length, ptr⟩ := rest
    cases length with
    | zero => rfl
    | succ =>
      rw [bytes_succ]
      rfl
  | succ room ih =>
    obtain ⟨length, ptr⟩ := rest
    cases length with
    | zero => rfl
    | succ n =>
      have hdecode := decodeLength_eq m ⟨n + 1, ptr⟩
      rw [readItems, if_neg (Nat.succ_ne_zero n), hdecode, bytes_succ, Trie.RLPReader.readItems,
        ← bytes_succ]
      cases hread : Trie.RLPReader.decodeLength (RLPItem.bytes ⟨n + 1, ptr⟩ m) with
      | error => rfl
      | ok read =>
        obtain ⟨offset, len, kind⟩ := read
        have hle := (Trie.RLPReader.decodeLength_le hread).1
        rw [RLPItem.bytes, length_load] at hle
        have hmore := ih ⟨n + 1 - (offset + len), ptr + (offset + len)⟩
        rw [RLPItem.bytes, ← drop_load hle] at hmore
        simp only [ok_bind, RLPItem.bytes]
        rw [take_load hle, ← hmore]
        cases readItems m room ⟨n + 1 - (offset + len), ptr + (offset + len)⟩ with
        | error => rfl
        | ok => rfl

theorem readList_eq (m : Memory) (item : RLPItem) :
    (readList m item).map (·.map (·.bytes m)) = Trie.RLPReader.readList (item.bytes m) := by
  unfold readList Trie.RLPReader.readList
  rw [decodeLength_eq]
  cases hread : Trie.RLPReader.decodeLength (item.bytes m) with
  | error => rfl
  | ok read =>
    obtain ⟨offset, len, kind⟩ := read
    have hle := (Trie.RLPReader.decodeLength_le hread).1
    rw [RLPItem.bytes, length_load] at hle
    have hitems := readItems_eq m maxListLength ⟨item.length - offset, item.ptr + offset⟩
    rw [RLPItem.bytes, ← drop_load (by omega)] at hitems
    rw [ok_bind, ok_bind]
    dsimp only
    rw [RLPItem.bytes, ← hitems]
    cases kind with
    | dataItem => rfl
    | listItem => rfl

theorem bytesAt_copy {src offset length : ℕ} (h : src + offset + length ≤ heap.free)
    (hlength : length < 2 ^ 256) :
    (copy heap src offset length).2.memory.bytesAt (copy heap src offset length).1 =
      heap.memory.load (src + offset) length := by
  unfold copy
  split
  next hzero =>
    subst hzero
    exact heap.bytesAt_newBytes_zero
  next =>
    have hstore := heap.bytesAt_newBytes_store
      (b := heap.memory.load (src + offset) length) (by rwa [length_load])
    rw [length_load, ← Heap.load_newBytes length h] at hstore
    rw [← Heap.load_newBytes length h]
    dsimp only
    rw [copy_eq (by omega)]
    exact hstore

theorem readBytes_eq (h : item.ptr + item.length ≤ heap.free) :
    (readBytes heap item).map (fun out => out.2.memory.bytesAt out.1) =
      Trie.RLPReader.readBytes (item.bytes heap.memory) := by
  unfold readBytes Trie.RLPReader.readBytes
  rw [decodeLength_eq]
  cases hread : Trie.RLPReader.decodeLength (item.bytes heap.memory) with
  | error => rfl
  | ok read =>
    obtain ⟨offset, len, kind⟩ := read
    obtain ⟨hle, hlt⟩ := Trie.RLPReader.decodeLength_le hread
    rw [RLPItem.bytes, length_load] at hle
    dsimp only at hle hlt
    have hcopy := bytesAt_copy (show item.ptr + offset + len ≤ heap.free by omega)
      (hlt.trans (by norm_num))
    rw [ok_bind, ok_bind]
    dsimp only
    rw [RLPItem.bytes, drop_load (by omega), take_load (by omega), ← hcopy]
    cases kind with
    | dataItem => rfl
    | listItem => rfl

theorem readRawBytes_eq (h : item.ptr + item.length ≤ heap.free) (hlength : item.length < 2 ^ 256) :
    (readRawBytes heap item).2.memory.bytesAt (readRawBytes heap item).1 =
      Trie.RLPReader.readRawBytes (item.bytes heap.memory) :=
  bytesAt_copy h hlength

/-- The first bytes of a word, shifted to its end. -/
theorem mload_div_word {p k : ℕ} (h : k ≤ 32) :
    (if k < 32 then m.mload p / BitVec.ofNat 256 (256 ^ (32 - k)) else m.mload p) =
      BitVec.ofNat 256 (decode (m.load p k)) := by
  by_cases hfull : k = 32
  · subst hfull
    rfl
  rw [if_pos (by omega)]
  apply BitVec.eq_of_toNat_eq
  rw [BitVec.toNat_udiv, ← mload_div h, BitVec.toNat_ofNat, BitVec.toNat_ofNat]
  have hword := (m.mload p).isLt
  rw [Nat.mod_eq_of_lt (Nat.lt_of_le_of_lt (Nat.div_le_self _ _) hword)]
  by_cases hzero : k = 0
  · subst hzero
    rw [show 256 ^ (32 - 0) % 2 ^ 256 = 0 by norm_num, Nat.div_zero]
    exact (Nat.div_eq_of_lt (hword.trans_eq (by norm_num))).symm
  · have hpow : (256 : ℕ) ^ (32 - k) < 2 ^ 256 :=
      lt_of_le_of_lt (Nat.pow_le_pow_right (by norm_num) (show _ ≤ 31 by omega)) (by norm_num)
    rw [Nat.mod_eq_of_lt hpow]

/-- A word is read with what follows the item in memory, and shifted to the content. -/
theorem readBytes32_eq {content : Bytes} (hitem : item.bytes m = encodeString content)
    (h : content.length ≤ 32) : readBytes32 m item = .ok (BitVec.ofNat 256 (decode content)) := by
  obtain ⟨header, hencode, hdecode⟩ :=
    Trie.RLPReader.encodes_encodeString (show content.length < 2 ^ 64 by omega)
  have hread := hdecode []
  rw [append_nil, ← hitem, ← decodeLength_eq] at hread
  have hlength : item.length = header.length + content.length := by
    rw [← length_append, ← hencode, ← hitem, RLPItem.bytes, length_load]
  have hcontent : m.load (item.ptr + header.length) content.length = content := by
    have hdrop := drop_load (m := m) (p := item.ptr) (show header.length ≤ item.length by omega)
    rw [← RLPItem.bytes, hitem, hencode, drop_left, hlength, Nat.add_sub_cancel_left] at hdrop
    exact hdrop.symm
  have hheader : header.length ≤ 1 := by
    have hshort := congrArg length hencode
    unfold encodeString at hshort
    split at hshort
    · rw [length_append] at hshort
      omega
    · rw [encodeLength_short _ (by omega)] at hshort
      simp only [length_append, length_singleton] at hshort
      omega
  unfold readBytes32 require
  rw [if_pos (by omega), ok_bind, hread, ok_bind]
  dsimp only
  rw [if_pos rfl, ok_bind, mload_div_word h, hcontent]
  rfl

end LibRLPReader

/-! The writer for the same memory. The functions that do not copy are those of the other writer,
whose code this one shares. -/
namespace LibRLPWriter
open Checked Rlp List Memory
open Portal (RLPWriter.writeLength)

def writeBytes (b : Bytes) : Result Bytes := Portal.RLPWriter.writeBytes b

def writeAddress (a : Address) : Result Bytes := Portal.RLPWriter.writeAddress a

def writeUint (x : Uint256) : Result Bytes := Portal.RLPWriter.writeUint x

def writeBool (b : Bool) : Bytes := Portal.RLPWriter.writeBool b

def memcpy (m : Memory) (dest src len : ℕ) : Memory :=
  if 32 ≤ len then memcpy (m.mstore dest (m.mload src)) (dest + 32) (src + 32) (len - 32)
  else m.copyMasked dest src len

def copyItems (m : Memory) (flattenedPtr : ℕ) : List ℕ → Memory
  | [] => m
  | item :: list =>
    copyItems (memcpy m flattenedPtr (item + 32) (m.mload item).toNat)
      (flattenedPtr + (m.mload item).toNat) list

section Flatten

variable (heap : Heap) (list : List ℕ)

def flatten : ℕ × Heap :=
  if list.length = 0 then (heap.free, heap.newBytes 0)
  else
    let len := (list.map fun item => (heap.memory.mload item).toNat).sum
    let flattened := heap.free
    let heap := heap.newBytes len
    (flattened, { heap with memory := copyItems heap.memory (flattened + 32) list })

def writeList : Result Bytes :=
  let (flattened, heap) := flatten heap list
  let list := heap.memory.bytesAt flattened
  (RLPWriter.writeLength list.length 192).map (· ++ list)

end Flatten

theorem memcpy_eq {m : Memory} {dest src len : ℕ} (h : src + len ≤ dest) :
    memcpy m dest src len = m.store dest (m.load src len) := by
  fun_induction memcpy m dest src len with
  | case1 m dest src len hlen ih =>
    rw [ih (by omega), store_word (by omega), Nat.add_sub_cancel' hlen]
  | case2 m dest src len hlen => exact copyMasked_eq (by omega) dest src

theorem copyItems_eq {m : Memory} {p : ℕ} {list : List ℕ}
    (h : ∀ item ∈ list, item + 32 + (m.mload item).toNat ≤ p) :
    copyItems m p list = m.store p (list.map m.bytesAt).flatten := by
  induction list generalizing m p with
  | nil => exact (m.store_load p 0).symm
  | cons item list ih =>
    rw [forall_mem_cons] at h
    have hlength : (m.bytesAt item).length = (m.mload item).toNat := length_load ..
    have hlater : ∀ later ∈ list, later + 32 + ((m.store p (m.bytesAt item)).mload later).toNat ≤
          p + (m.mload item).toNat := by
      intro later hmem
      have hle := h.2 later hmem
      rw [mload_store_of_le (by omega)]
      omega
    have hbytes : list.map (m.store p (m.bytesAt item)).bytesAt = list.map m.bytesAt :=
      map_congr_left fun later hmem => bytesAt_store_of_le (h.2 later hmem)
    rw [copyItems, memcpy_eq h.1, ← bytesAt, ih hlater, hbytes, ← hlength, store_append, map_cons,
      flatten_cons]

theorem bytesAt_flatten {heap : Heap} {list : List ℕ}
    (h : ∀ item ∈ list, item + 32 + (heap.memory.mload item).toNat ≤ heap.free)
    (hlength : (list.map heap.memory.bytesAt).flatten.length < 2 ^ 256) :
    (flatten heap list).2.memory.bytesAt (flatten heap list).1 =
      (list.map heap.memory.bytesAt).flatten := by
  have hstore := heap.bytesAt_newBytes_store hlength
  unfold flatten
  split
  next hzero =>
    rw [eq_nil_of_length_eq_zero hzero]
    exact heap.bytesAt_newBytes_zero
  next =>
    have hlen : (list.map fun item => (heap.memory.mload item).toNat).sum =
        (list.map heap.memory.bytesAt).flatten.length := by
      rw [length_flatten, map_map]
      exact congrArg sum (map_congr_left fun item _ => (length_load ..).symm)
    rw [hlen]
    dsimp only
    rw [copyItems_eq, map_congr_left fun item hmem => Heap.bytesAt_newBytes _ (h item hmem)]
    · exact hstore
    · intro item hmem
      have hle := h item hmem
      rw [Heap.mload_newBytes _ (by omega)]
      omega

/-- The writer of lists on memory writes what the one on byte strings writes. -/
theorem writeList_eq {heap : Heap} {list : List ℕ}
    (h : ∀ item ∈ list, item + 32 + (heap.memory.mload item).toNat ≤ heap.free)
    (hlength : (list.map heap.memory.bytesAt).flatten.length < 2 ^ 256) :
    writeList heap list = Portal.RLPWriter.writeList (list.map heap.memory.bytesAt) := by
  have hflatten := bytesAt_flatten h hlength
  rw [writeList, Portal.RLPWriter.writeList, ← hflatten]

end LibRLPWriter
