import TokamakTitan.Library.Checked
import TokamakTitan.Library.Rlp

/-! The RLP reader and the byte utilities of trie proofs. An item is the slice of bytes that the
reader's pointer and length denote. -/
namespace Trie
open BigEndian Checked Rlp List UInt8 Nat

namespace RLPReader

inductive RLPItemType where
  | dataItem
  | listItem
  deriving DecidableEq

def maxListLength : ℕ := 32

def shortHeader (length n : ℕ) (kind : RLPItemType) (message : String) :
    Result (ℕ × ℕ × RLPItemType) := do
  require (length > n) message
  return (1, n, kind)

/-- A header whose first byte is followed by `lenOfLen` bytes with the length `len`. -/
def longHeader (length lenOfLen len : ℕ) (kind : RLPItemType) (lengthMessage message : String) :
    Result (ℕ × ℕ × RLPItemType) := do
  require (length > lenOfLen) lengthMessage
  require (length > lenOfLen + len) message
  return (1 + lenOfLen, len, kind)

/-- Offset, length and type of the content of an item of `length` bytes that begins with `first`,
where `announced k` is the number in the `k` bytes that follow. -/
def headerOf (length first : ℕ) (announced : ℕ → ℕ) : Result (ℕ × ℕ × RLPItemType) :=
  if first ≤ 0x7f then .ok (0, 1, .dataItem)
  else if first ≤ 0xb7 then
    shortHeader length (first - 0x80) .dataItem "Invalid RLP short string."
  else if first ≤ 0xbf then
    longHeader length (first - 0xb7) (announced (first - 0xb7)) .dataItem
      "Invalid RLP long string length." "Invalid RLP long string."
  else if first ≤ 0xf7 then
    shortHeader length (first - 0xc0) .listItem "Invalid RLP short list."
  else
    longHeader length (first - 0xf7) (announced (first - 0xf7)) .listItem
      "Invalid RLP long list length." "Invalid RLP long list."

def decodeLength : Bytes → Result (ℕ × ℕ × RLPItemType)
  | [] => .error (.reason "RLP item cannot be null.")
  | first :: rest => headerOf (rest.length + 1) first.toNat fun k => decode (rest.take k)

variable (item : Bytes)

/-- The loop of `readList`: `room` more items may follow, and it stops at the end of the input, not
of the list. -/
def readItems : ℕ → Bytes → Result (List Bytes)
  | _, [] => .ok []
  | 0, _ :: _ => .error (.reason "Provided RLP list exceeds max list length.")
  | room + 1, first :: rest => do
    let input := first :: rest
    let (itemOffset, itemLength, _) ← decodeLength input
    let items ← readItems room (input.drop (itemOffset + itemLength))
    return input.take (itemOffset + itemLength) :: items

def readList : Result (List Bytes) := do
  let (offset, _, itemType) ← decodeLength item
  require (itemType = .listItem) "Invalid RLP list value."
  readItems maxListLength (item.drop offset)

def readBytes : Result Bytes := do
  let (itemOffset, itemLength, itemType) ← decodeLength item
  require (itemType = .dataItem) "Invalid RLP bytes value."
  return (item.drop itemOffset).take itemLength

def readRawBytes : Bytes := item

section HeaderOf

variable {length n lenOfLen len : ℕ}

theorem shortHeader_of_lt (h : n < length) (kind : RLPItemType) (message : String) :
    shortHeader length n kind message = .ok (1, n, kind) := by
  unfold shortHeader require
  rw [if_pos h]
  rfl

theorem longHeader_of_lt (h : lenOfLen + len < length) (kind : RLPItemType)
    (lengthMessage message : String) :
    longHeader length lenOfLen len kind lengthMessage message = .ok (1 + lenOfLen, len, kind) := by
  unfold longHeader require
  rw [if_pos (show length > lenOfLen by omega), if_pos h]
  rfl

variable {header : ℕ × ℕ × RLPItemType} {message : String} {kind : RLPItemType}

theorem shortHeader_eq_ok (h : shortHeader length n kind message = .ok header) :
    n < length ∧ header = (1, n, kind) := by
  simp only [shortHeader, bind_eq_ok, require_eq_ok, pure_eq_ok] at h
  obtain ⟨-, hlt, rfl⟩ := h
  exact ⟨hlt, rfl⟩

theorem longHeader_eq_ok {lengthMessage : String}
    (h : longHeader length lenOfLen len kind lengthMessage message = .ok header) :
    lenOfLen + len < length ∧ header = (1 + lenOfLen, len, kind) := by
  simp only [longHeader, bind_eq_ok, require_eq_ok, pure_eq_ok] at h
  obtain ⟨-, -, -, hlt, rfl⟩ := h
  exact ⟨hlt, rfl⟩

theorem decodeLength_byte {first : UInt8} (rest : Bytes) (h : first.toNat ≤ 0x7f) :
    decodeLength (first :: rest) = .ok (0, 1, .dataItem) := by
  rw [decodeLength, headerOf, if_pos h]

end HeaderOf

variable {n : ℕ}

/-- The bytes `item` are one item of type `kind` with content `content`, whatever follows. -/
def Encodes (kind : RLPItemType) (content : Bytes) : Prop :=
  ∃ header, item = header ++ content ∧
    ∀ rest, decodeLength (item ++ rest) = .ok (header.length, content.length, kind)

def RLPItemType.offset : RLPItemType → ℕ
  | .dataItem => stringOffset
  | .listItem => listOffset

inductive Header : RLPItemType → Bytes → ℕ → Prop
  | short {kind n} (h : n < 56) : Header kind [UInt8.ofNat (kind.offset + n)] n
  | long {kind} {length : Bytes} (hpos : 0 < length.length) (hle : length.length ≤ 8) :
    Header kind (UInt8.ofNat (kind.offset + 55 + length.length) :: length) (decode length)

theorem Header.lt {kind : RLPItemType} {header : Bytes} (h : Header kind header n) :
    n < 2 ^ 64 := by
  cases h with
  | short => omega
  | @long length hpos hle =>
    calc decode length < 256 ^ length.length := decode_lt length
      _ ≤ 256 ^ 8 := Nat.pow_le_pow_right (by norm_num) hle
      _ = 2 ^ 64 := by norm_num

theorem header_encodeLength (h : n < 2 ^ 64) (kind : RLPItemType) :
    Header kind (encodeLength kind.offset n) n := by
  by_cases hshort : n < 56
  · rw [encodeLength_short _ hshort]
    exact .short hshort
  · have hlong (length : Bytes) (hlength : length.length = byteLength n) :
        Header kind (ofNat (kind.offset + 55 + length.length) :: length) (decode length) :=
      .long (by rw [hlength]; exact byteLength_pos n) (by rw [hlength]; exact byteLength_le h)
    have hheader := hlong (encode (byteLength n) n) (length_encode _ _)
    rwa [length_encode, decode_encode (lt_pow_byteLength n), ← encodeLength_long _ hshort]
      at hheader

theorem Header.decodeLength_append {kind : RLPItemType} {header : Bytes} (h : Header kind header n)
    {rest : Bytes} (hrest : n ≤ rest.length) :
    decodeLength (header ++ rest) = .ok (header.length, n, kind) := by
  cases h with
  | short =>
    rw [singleton_append, length_singleton, decodeLength, headerOf]
    cases kind with
    | dataItem =>
      have hfirst : (ofNat (RLPItemType.dataItem.offset + n)).toNat = 0x80 + n := by
        rw [toNat_ofNat', RLPItemType.offset, stringOffset]
        omega
      rw [hfirst, if_neg (by omega), if_pos (by omega), Nat.add_sub_cancel_left]
      exact shortHeader_of_lt (by omega) _ _
    | listItem =>
      have hfirst : (ofNat (RLPItemType.listItem.offset + n)).toNat = 0xc0 + n := by
        rw [toNat_ofNat', RLPItemType.offset, listOffset]
        omega
      rw [hfirst, if_neg (by omega), if_neg (by omega), if_neg (by omega), if_pos (by omega),
        Nat.add_sub_cancel_left]
      exact shortHeader_of_lt (by omega) _ _
  | @long length hpos hle =>
    have hlt : length.length + decode length < (length ++ rest).length + 1 := by
      rw [length_append]
      omega
    rw [cons_append, length_cons, add_comm length.length 1, decodeLength, headerOf]
    cases kind with
    | dataItem =>
      have hfirst : (ofNat (RLPItemType.dataItem.offset + 55 + length.length)).toNat =
          0xb7 + length.length := by
        rw [toNat_ofNat', RLPItemType.offset, stringOffset]
        omega
      rw [hfirst, if_neg (by omega), if_neg (by omega), if_pos (by omega),
        Nat.add_sub_cancel_left, take_left]
      exact longHeader_of_lt hlt _ _ _
    | listItem =>
      have hfirst : (ofNat (RLPItemType.listItem.offset + 55 + length.length)).toNat =
          0xf7 + length.length := by
        rw [toNat_ofNat', RLPItemType.offset, listOffset]
        omega
      rw [hfirst, if_neg (by omega), if_neg (by omega), if_neg (by omega), if_neg (by omega),
        Nat.add_sub_cancel_left, take_left]
      exact longHeader_of_lt hlt _ _ _

section ExistsHeader

variable {first : UInt8} {rest : Bytes} {kind : RLPItemType} {read : ℕ × ℕ × RLPItemType}

/-- Offset, length and type are those of a header that announces no more than what follows it. -/
def HasHeader (b : Bytes) (kind : RLPItemType) (read : ℕ × ℕ × RLPItemType) : Prop :=
  ∃ header content, b = header ++ content ∧ Header kind header read.2.1 ∧
    read.2.1 ≤ content.length ∧ read.1 = header.length ∧ read.2.2 = kind

theorem hasHeader_of_shortHeader (hlow : kind.offset ≤ first.toNat)
    (hhigh : first.toNat ≤ kind.offset + 55) {message : String}
    (h : shortHeader (rest.length + 1) (first.toNat - kind.offset) kind message = .ok read) :
    HasHeader (first :: rest) kind read := by
  obtain ⟨hlt, rfl⟩ := shortHeader_eq_ok h
  have hfirst : first = ofNat (kind.offset + (first.toNat - kind.offset)) := by
    rw [Nat.add_sub_cancel' hlow, UInt8.ofNat_toNat]
  refine ⟨[first], rest, rfl, ?_, by dsimp only; omega, rfl, rfl⟩
  nth_rewrite 1 [hfirst]
  exact .short (by omega)

theorem hasHeader_of_longHeader {k : ℕ} (hfirst : first.toNat = kind.offset + 55 + k)
    (hpos : 0 < k) (hle : k ≤ 8) {lengthMessage message : String}
    (h : longHeader (rest.length + 1) k (decode (rest.take k)) kind lengthMessage message =
      .ok read) :
    HasHeader (first :: rest) kind read := by
  obtain ⟨hlt, rfl⟩ := longHeader_eq_ok h
  have hlength : (rest.take k).length = k := by
    rw [length_take]
    omega
  have hbyte : first = ofNat (kind.offset + 55 + (rest.take k).length) := by
    rw [hlength, ← hfirst, UInt8.ofNat_toNat]
  refine ⟨first :: rest.take k, rest.drop k, ?_, ?_, ?_, ?_, rfl⟩
  · rw [cons_append, take_append_drop]
  · rw [hbyte]
    exact .long (by omega) (by omega)
  · rw [length_drop]
    dsimp only
    omega
  · rw [length_cons, hlength, add_comm]

theorem hasHeader_of_decodeLength (h : decodeLength (first :: rest) = .ok read) :
    first.toNat < 0x80 ∧ read = (0, 1, .dataItem) ∨
      HasHeader (first :: rest) (if 0xc0 ≤ first.toNat then .listItem else .dataItem) read := by
  have hlt := first.toNat_lt
  simp only [decodeLength, headerOf] at h
  split at h
  next hbyte =>
    cases h
    exact .inl ⟨by omega, rfl⟩
  next hlow =>
    refine .inr ?_
    split at h
    next hhigh =>
      rw [if_neg (by omega)]
      exact @hasHeader_of_shortHeader _ _ .dataItem _ (show 0x80 ≤ _ by omega) hhigh _ h
    next hlong =>
      split at h
      next hhigh =>
        rw [if_neg (by omega)]
        exact hasHeader_of_longHeader (show _ = 0xb7 + _ by omega) (by omega) (by omega) h
      next hlist =>
        rw [if_pos (by omega)]
        split at h
        next hhigh =>
          exact @hasHeader_of_shortHeader _ _ .listItem _ (show 0xc0 ≤ _ by omega) hhigh _ h
        next hlong =>
          exact hasHeader_of_longHeader (show _ = 0xf7 + _ by omega) (by omega) (by omega) h

theorem decodeLength_kind (h : decodeLength (first :: rest) = .ok read) :
    read.2.2 = .listItem ↔ 0xc0 ≤ first.toNat := by
  rcases hasHeader_of_decodeLength h with ⟨hbyte, rfl⟩ | ⟨header, content, -, -, -, -, hkind⟩
  · exact iff_of_false (by simp) (by omega)
  · rw [hkind]
    simp

theorem decodeLength_le {b : Bytes} (h : decodeLength b = .ok read) :
    read.1 + read.2.1 ≤ b.length ∧ read.2.1 < 2 ^ 64 := by
  cases b with
  | nil => cases h
  | cons =>
    rcases hasHeader_of_decodeLength h with
      ⟨-, rfl⟩ | ⟨header, content, hb, hheader, hle, hlength, -⟩
    · exact ⟨by simp, by norm_num⟩
    · refine ⟨?_, hheader.lt⟩
      rw [hb, length_append, hlength]
      omega

end ExistsHeader

theorem encodes_encodeString {b : Bytes} (h : b.length < 2 ^ 64) :
    Encodes (encodeString b) .dataItem b := by
  by_cases hbyte : b.length = 1 ∧ (b.headD 0).toNat < 0x80
  · obtain ⟨hone, hlt⟩ := hbyte
    obtain ⟨x, rfl⟩ := length_eq_one_iff.mp hone
    have hx : x.toNat < 0x80 := hlt
    refine ⟨[], encodeString_byte hx, fun rest => ?_⟩
    rw [encodeString_byte hx]
    exact decodeLength_byte rest (by omega)
  · refine ⟨encodeLength stringOffset b.length, encodeString_header hbyte, fun rest => ?_⟩
    rw [encodeString_header hbyte, append_assoc]
    exact (header_encodeLength h .dataItem).decodeLength_append (by simp)

variable {items : List Bytes}

theorem encodes_encodeList (h : items.flatten.length < 2 ^ 64) :
    Encodes (encodeList items) .listItem items.flatten := by
  refine ⟨encodeLength listOffset items.flatten.length, rfl, fun rest => ?_⟩
  rw [encodeList, append_assoc]
  exact (header_encodeLength h .listItem).decodeLength_append (by simp)

inductive Item : Bytes → Prop
  | byte {x : UInt8} (h : x.toNat < 0x80) : Item [x]
  | headed {kind header content} (h : Header kind header content.length) :
    Item (header ++ content)

theorem encodes_byte {x : UInt8} (h : x.toNat < 0x80) : Encodes [x] .dataItem [x] := by
  have hencodes := encodes_encodeString (b := [x]) (by simp)
  rwa [encodeString_byte h] at hencodes

theorem Item.encodes {item : Bytes} (h : Item item) :
    ∃ kind content, Encodes item kind content := by
  cases h with
  | byte h => exact ⟨_, _, encodes_byte h⟩
  | @headed kind front content h =>
    refine ⟨kind, content, front, rfl, fun rest => ?_⟩
    rw [append_assoc]
    exact h.decodeLength_append (by simp)

variable {items : List Bytes}

theorem readItems_eq_ok {room : ℕ} {b : Bytes} (h : readItems room b = .ok items) :
    items.length ≤ room ∧ b = items.flatten ∧ ∀ item ∈ items, Item item := by
  induction room generalizing b items with
  | zero =>
    cases b with
    | nil =>
      cases h
      simp
    | cons => cases h
  | succ room ih =>
    cases b with
    | nil =>
      cases h
      simp
    | cons first rest =>
      simp only [readItems, bind_eq_ok, pure_eq_ok] at h
      obtain ⟨⟨offset, n, kind⟩, hdecode, more, hmore, rfl⟩ := h
      obtain ⟨hcount, hrest, hitems⟩ := ih hmore
      have hitem : Item ((first :: rest).take (offset + n)) := by
        rcases hasHeader_of_decodeLength hdecode with
          ⟨hbyte, heq⟩ | ⟨front, content, hwhole, hheader, hroom, rfl, -⟩
        · cases heq
          exact .byte hbyte
        · rw [← min_eq_left hroom, ← length_take] at hheader
          rw [hwhole, take_length_add_append]
          exact .headed hheader
      refine ⟨by rw [length_cons]; omega, ?_, ?_⟩
      · rw [flatten_cons, ← hrest, take_append_drop]
      · exact forall_mem_cons.mpr ⟨hitem, hitems⟩

section Encodes

variable {item content : Bytes} {kind : RLPItemType}

theorem Encodes.exists_cons (h : Encodes item kind content) :
    ∃ first rest, item = first :: rest ∧ (kind = .listItem ↔ 0xc0 ≤ first.toNat) := by
  obtain ⟨header, -, hdecode⟩ := h
  have hread := hdecode []
  rw [append_nil] at hread
  cases item with
  | nil => simp [decodeLength] at hread
  | cons first rest => exact ⟨first, rest, rfl, decodeLength_kind hread⟩

theorem readBytes_encodes (h : Encodes item .dataItem content) : readBytes item = .ok content := by
  obtain ⟨header, rfl, hdecode⟩ := h
  have hread := hdecode []
  rw [append_nil] at hread
  unfold readBytes
  rw [hread]
  show Except.ok (((header ++ content).drop header.length).take content.length) = _
  rw [drop_left, take_length]

theorem readItems_encodes (h : Encodes item kind content) (room : ℕ) (rest : Bytes) :
    readItems (room + 1) (item ++ rest) = (item :: ·) <$> readItems room rest := by
  obtain ⟨header, hitem, hdecode⟩ := id h
  obtain ⟨first, tail, hcons, -⟩ := h.exists_cons
  have hlength : header.length + content.length = item.length := by
    rw [hitem, length_append]
  have hread := hdecode rest
  rw [hcons, cons_append] at hread
  rw [hcons, cons_append, readItems, hread]
  simp only [bind, Except.bind]
  rw [hlength, ← cons_append, ← hcons, drop_left, take_left]
  cases readItems room rest with
  | error => rfl
  | ok => rfl

end Encodes

theorem readItems_zeros (room k : ℕ) :
    readItems room (replicate k 0) =
      if k ≤ room then .ok (replicate k [0])
      else .error (.reason "Provided RLP list exceeds max list length.") := by
  induction k generalizing room with
  | zero => simp [readItems]
  | succ k ih =>
    have hzero := encodes_encodeString (b := [0]) (by norm_num)
    rw [encodeString_byte (by decide)] at hzero
    cases room with
    | zero => simp [readItems, replicate_succ]
    | succ room =>
      rw [replicate_succ, ← singleton_append, readItems_encodes hzero, ih]
      by_cases hle : k ≤ room
      · rw [if_pos hle, if_pos (by omega)]
        rfl
      · rw [if_neg hle, if_neg (by omega)]
        rfl

section Items

variable (hitems : ∀ item ∈ items, ∃ kind content, Encodes item kind content)
include hitems

theorem readItems_append (room : ℕ) (rest : Bytes) :
    readItems (items.length + room) (items.flatten ++ rest) =
      (items ++ ·) <$> readItems room rest := by
  induction items with
  | nil =>
    cases hread : readItems room rest with
    | error => simpa using hread
    | ok => simpa using hread
  | cons item items ih =>
    obtain ⟨kind, content, hitem⟩ := hitems item (by simp)
    have hrest := ih fun other hother => hitems other (by simp [hother])
    rw [length_cons, add_right_comm, flatten_cons, append_assoc, readItems_encodes hitem, hrest]
    cases readItems room rest with
    | error => rfl
    | ok => rfl

theorem readList_encodeList_zeros (hsize : items.flatten.length < 2 ^ 64)
    (hcount : items.length ≤ maxListLength) (k : ℕ) :
    readList (encodeList items ++ replicate k 0) =
      if items.length + k ≤ maxListLength then .ok (items ++ replicate k [0])
      else .error (.reason "Provided RLP list exceeds max list length.") := by
  obtain ⟨header, hheader, hdecode⟩ := encodes_encodeList hsize
  obtain ⟨room, hroom⟩ := Nat.exists_eq_add_of_le hcount
  have hlist : readList (encodeList items ++ replicate k 0) =
      readItems maxListLength (items.flatten ++ replicate k 0) := by
    unfold readList
    rw [hdecode]
    show readItems maxListLength ((encodeList items ++ replicate k 0).drop header.length) = _
    rw [hheader, append_assoc, drop_left]
  rw [hlist, hroom, readItems_append hitems, readItems_zeros]
  by_cases hle : k ≤ room
  · rw [if_pos hle, if_pos (by omega)]
    rfl
  · rw [if_neg hle, if_neg (by omega)]
    rfl

theorem readList_encodeList (hsize : items.flatten.length < 2 ^ 64)
    (hcount : items.length ≤ maxListLength) : readList (encodeList items) = .ok items := by
  have hread := readList_encodeList_zeros hitems hsize hcount 0
  simpa [hcount] using hread

theorem readItems_flatten (hcount : items.length ≤ maxListLength) :
    readItems maxListLength items.flatten = .ok items := by
  obtain ⟨room, hroom⟩ := Nat.exists_eq_add_of_le hcount
  have hread := readItems_append hitems room []
  rw [append_nil, ← hroom] at hread
  rw [hread, readItems]
  show Except.ok (items ++ []) = _
  rw [append_nil]

theorem readList_emptyHeader (hcount : items.length ≤ maxListLength) :
    readList (0xc0 :: items.flatten) = .ok items := by
  have hheader : Header .listItem [0xc0] 0 := .short (show 0 < 56 by norm_num)
  unfold readList
  rw [← singleton_append, hheader.decodeLength_append (Nat.zero_le _)]
  exact readItems_flatten hitems hcount

theorem readList_encodeList_long (hsize : items.flatten.length < 2 ^ 64)
    (hcount : maxListLength < items.length) :
    readList (encodeList items) =
      .error (.reason "Provided RLP list exceeds max list length.") := by
  obtain ⟨header, hheader, hdecode⟩ := encodes_encodeList hsize
  have hread := hdecode []
  rw [append_nil] at hread
  have hsplit : items.flatten =
      (items.take maxListLength).flatten ++ (items.drop maxListLength).flatten := by
    rw [← flatten_append, take_append_drop]
  have htake : ∀ item ∈ items.take maxListLength, ∃ kind content, Encodes item kind content :=
    fun item hitem => hitems item (mem_of_mem_take hitem)
  have hfront := readItems_append htake 0 (items.drop maxListLength).flatten
  rw [length_take, min_eq_left hcount.le, add_zero, ← hsplit] at hfront
  obtain ⟨first, rest, hcons⟩ :
      ∃ first rest, (items.drop maxListLength).flatten = first :: rest := by
    obtain ⟨kind, content, hitem⟩ := hitems items[maxListLength] (getElem_mem hcount)
    obtain ⟨first, rest, hcons, -⟩ := hitem.exists_cons
    rw [drop_eq_getElem_cons hcount, flatten_cons, hcons]
    exact ⟨first, _, rfl⟩
  unfold readList
  rw [hread]
  show readItems maxListLength ((encodeList items).drop header.length) = _
  rw [hheader, drop_left, hfront, hcons]
  rfl

end Items

theorem exists_cons_of_readList {input : Bytes} (h : readList input = .ok items) :
    ∃ first rest, input = first :: rest ∧ 0xc0 ≤ first.toNat ∧
      ∀ n < 56, first.toNat = 0xc0 + n → n ≤ rest.length := by
  simp only [readList, bind_eq_ok, require_eq_ok] at h
  obtain ⟨⟨offset, len, kind⟩, hdecode, -, hkind, -⟩ := h
  cases input with
  | nil => simp [decodeLength] at hdecode
  | cons first rest =>
    refine ⟨first, rest, rfl, (decodeLength_kind hdecode).mp hkind, ?_⟩
    intro n hn hfirst
    rw [decodeLength, headerOf, if_neg (by omega), if_neg (by omega), if_neg (by omega),
      if_pos (by omega)] at hdecode
    have hlt := (shortHeader_eq_ok hdecode).1
    omega

end RLPReader

namespace BytesUtils

variable (b : Bytes)

def toBytes32 : Bytes := (b ++ List.replicate 32 0).take 32

def toNibbles : Bytes := b.flatMap fun x : UInt8 => [x >>> 4, x % 16]

def slice (start : ℕ) : Bytes := b.drop start

def equal (hash : Bytes → Bytes) (b other : Bytes) : Bool := hash b = hash other

theorem toBytes32_of_length {b : Bytes} (h : b.length = 32) : toBytes32 b = b :=
  take_left' h

theorem eq_append_zeros_of_toBytes32_eq {a b : Bytes} (ha : a.length ≤ 32)
    (hle : b.length ≤ a.length) (h : toBytes32 a = toBytes32 b) :
    a = b ++ replicate (a.length - b.length) 0 := by
  have htake := congrArg (take a.length) h
  unfold toBytes32 at htake
  rw [take_take, take_take, min_eq_left ha, take_left, take_append,
    take_of_length_le hle, take_replicate, min_eq_left (by omega)] at htake
  exact htake

theorem head_toBytes32 {x y : UInt8} {xs ys : Bytes}
    (h : toBytes32 (x :: xs) = toBytes32 (y :: ys)) : x = y := by
  simp only [toBytes32, cons_append, take_succ_cons, cons.injEq] at h
  exact h.1

end BytesUtils

end Trie
