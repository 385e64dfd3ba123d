import TokamakTitan.Bedrock.MerkleTrie
import TokamakTitan.Trie.RlpMemory

/-! What the RLP reader of the bedrock contracts accepts, against the canonical encodings. -/
namespace Bedrock.RLPReader
open BigEndian Checked Rlp List
open Trie.RLPReader

def readList (item : Bytes) : Result (List Bytes) :=
  (Trie.RLPReader.readList item).mapError MerkleTrie.translate

def readBytes (item : Bytes) : Result Bytes :=
  (Trie.RLPReader.readBytes item).mapError MerkleTrie.translate

/-- On memory this reader does what the older one does, with its own messages. -/
theorem readList_memory (m : Memory) (item : LibRLPReader.RLPItem) :
    ((LibRLPReader.readList m item).mapError MerkleTrie.translate).map (·.map (·.bytes m)) =
      readList (item.bytes m) := by
  rw [readList, ← LibRLPReader.readList_eq]
  cases LibRLPReader.readList m item with
  | error => rfl
  | ok => rfl

theorem readBytes_memory {heap : Heap} {item : LibRLPReader.RLPItem}
    (h : item.ptr + item.length ≤ heap.free) :
    ((LibRLPReader.readBytes heap item).mapError MerkleTrie.translate).map
      (fun out => out.2.memory.bytesAt out.1) = readBytes (item.bytes heap.memory) := by
  rw [readBytes, ← LibRLPReader.readBytes_eq h]
  cases LibRLPReader.readBytes heap item with
  | error => rfl
  | ok => rfl

inductive Canonical : Bytes → Prop
  | string {b : Bytes} (h : b.length < 2 ^ 64) : Canonical (encodeString b)
  | list {items : List Bytes} (h : items.flatten.length < 2 ^ 64)
      (hitems : ∀ item ∈ items, Canonical item) : Canonical (encodeList items)

def IsList (b : Bytes) (items : List Bytes) : Prop :=
  b = encodeList items ∧ items.flatten.length < 2 ^ 64 ∧ ∀ item ∈ items, Canonical item

def IsString (b content : Bytes) : Prop := b = encodeString content ∧ content.length < 2 ^ 64

/-- A string as the header of a list and at most 32 items. The header announces no more than there
is. -/
structure ListReading (b front : Bytes) (n : ℕ) (items : List Bytes) : Prop where
  header : Header .listItem front n
  whole : b = front ++ items.flatten
  room : n ≤ items.flatten.length
  count : items.length ≤ maxListLength
  items : ∀ item ∈ items, Item item

/-- A string as a data item, which may have no header, and bytes that are left over. -/
inductive StringReading : Bytes → Bytes → Bytes → Bytes → Prop
  | byte {x : UInt8} {rest} (h : x.toNat < 0x80) : StringReading (x :: rest) [] [x] rest
  | headed {front content rest} (h : Header .dataItem front content.length) :
    StringReading (front ++ (content ++ rest)) front content rest

theorem Canonical.encodes {item : Bytes} (h : Canonical item) :
    ∃ kind content, Encodes item kind content := by
  cases h with
  | string h => exact ⟨_, _, encodes_encodeString h⟩
  | list h => exact ⟨_, _, encodes_encodeList h⟩

variable {kind : RLPItemType}

variable {b : Bytes} {items : List Bytes}

theorem readList_eq_ok : readList b = .ok items ↔ ∃ front n, ListReading b front n items := by
  rw [readList, mapError_eq_ok]
  constructor
  · intro h
    simp only [Trie.RLPReader.readList, bind_eq_ok, require_eq_ok] at h
    obtain ⟨⟨offset, n, kind⟩, hdecode, -, hkind, hitems⟩ := h
    dsimp only at hkind hitems
    subst hkind
    cases b with
    | nil => cases hdecode
    | cons =>
      rcases hasHeader_of_decodeLength hdecode with
        ⟨-, heq⟩ | ⟨front, content, hwhole, hheader, hroom, rfl, hkind⟩
      · cases heq
      · rw [hwhole, drop_left] at hitems
        obtain ⟨hcount, rfl, hitem⟩ := readItems_eq_ok hitems
        rw [← hkind] at hheader
        exact ⟨front, n, hheader, hwhole, hroom, hcount, hitem⟩
  · rintro ⟨front, n, h⟩
    unfold Trie.RLPReader.readList
    rw [h.whole, h.header.decodeLength_append h.room]
    show readItems maxListLength ((front ++ items.flatten).drop front.length) = _
    rw [drop_left]
    exact readItems_flatten (fun item hitem => (h.items item hitem).encodes) h.count

section StringReading

variable {b front content rest : Bytes}

variable (h : StringReading b front content rest)
include h

theorem StringReading.whole : b = front ++ (content ++ rest) := by
  cases h with
  | byte => rfl
  | headed => rfl

theorem StringReading.decodeLength :
    decodeLength b = .ok (front.length, content.length, .dataItem) := by
  cases h with
  | @byte x rest h => exact decodeLength_byte rest (by omega)
  | headed h => exact h.decodeLength_append (by simp)

theorem StringReading.length_lt : content.length < 2 ^ 64 := by
  cases h with
  | byte => simp
  | headed h => exact h.lt

end StringReading

theorem readBytes_eq_ok {content : Bytes} :
    readBytes b = .ok content ↔ ∃ front rest, StringReading b front content rest := by
  rw [readBytes, mapError_eq_ok]
  constructor
  · intro h
    simp only [Trie.RLPReader.readBytes, bind_eq_ok, require_eq_ok, pure_eq_ok] at h
    obtain ⟨⟨offset, n, kind⟩, hdecode, -, hkind, rfl⟩ := h
    dsimp only at hkind ⊢
    subst hkind
    cases b with
    | nil => cases hdecode
    | cons first rest =>
      rcases hasHeader_of_decodeLength hdecode with
        ⟨hbyte, heq⟩ | ⟨front, content, hwhole, hheader, hroom, rfl, hkind⟩
      · cases heq
        exact ⟨[], rest, .byte hbyte⟩
      · rw [← hkind] at hheader
        refine ⟨front, content.drop n, ?_⟩
        rw [hwhole, drop_left]
        nth_rewrite 1 [← take_append_drop n content]
        exact .headed (by rwa [length_take, Nat.min_eq_left hroom])
  · rintro ⟨front, rest, h⟩
    unfold Trie.RLPReader.readBytes
    rw [h.decodeLength, h.whole]
    show Except.ok (((front ++ (content ++ rest)).drop front.length).take content.length) = _
    rw [drop_left, take_left]

theorem header_unique {front content : Bytes} {n k : ℕ} (hn : Header kind front n)
    (hk : Header kind front k) (hle : n ≤ content.length) (hke : k ≤ content.length) : n = k := by
  have heq := (hn.decodeLength_append hle).symm.trans (hk.decodeLength_append hke)
  simpa using heq

/-- The lengths in the headers of lists are not compared with what follows, lengths need not be
minimal, and what a list item holds is not looked at. -/
theorem readList_canonical_iff (b : Bytes) :
    (∀ items, readList b = .ok items → IsList b items) ↔
      ∀ front n items, ListReading b front n items → n = items.flatten.length ∧
        front = encodeLength listOffset n ∧ ∀ item ∈ items, Canonical item := by
  constructor
  · intro hstrict front n items h
    obtain ⟨hlist, hsize, hitems⟩ := hstrict items (readList_eq_ok.mpr ⟨front, n, h⟩)
    have hfront : front = encodeLength listOffset items.flatten.length :=
      append_cancel_right (h.whole.symm.trans hlist)
    have hheader : Header .listItem front items.flatten.length := by
      rw [hfront]
      exact header_encodeLength hsize .listItem
    have hn := header_unique h.header hheader h.room le_rfl
    exact ⟨hn, by rw [hfront, hn], hitems⟩
  · intro htight items hread
    obtain ⟨front, n, h⟩ := readList_eq_ok.mp hread
    obtain ⟨hn, hfront, hitems⟩ := htight front n items h
    refine ⟨?_, ?_, hitems⟩
    · rw [h.whole, hfront, hn, encodeList]
    · rw [← hn]
      exact h.header.lt

theorem readBytes_canonical_iff (b : Bytes) :
    (∀ content, readBytes b = .ok content → IsString b content) ↔
      ∀ front content rest, StringReading b front content rest →
        rest = [] ∧ front ++ content = encodeString content := by
  constructor
  · intro hstrict front content rest h
    obtain ⟨hstring, hsize⟩ := hstrict content (readBytes_eq_ok.mpr ⟨front, rest, h⟩)
    obtain ⟨header, hitem, hdecode⟩ := encodes_encodeString hsize
    have hread := hdecode []
    rw [append_nil, ← hstring, h.decodeLength, Except.ok.injEq, Prod.mk.injEq] at hread
    have hwhole := h.whole.symm.trans hstring
    have hlength := congrArg length (hwhole.trans hitem)
    simp only [length_append, hread.1] at hlength
    have hrest : rest = [] := eq_nil_of_length_eq_zero (by omega)
    rw [hrest, append_nil] at hwhole
    exact ⟨hrest, hwhole⟩
  · intro htight content hread
    obtain ⟨front, rest, h⟩ := readBytes_eq_ok.mp hread
    obtain ⟨rfl, hshortest⟩ := htight front content rest h
    refine ⟨?_, h.length_lt⟩
    rw [h.whole, append_nil, hshortest]

theorem readBytes_writeBytes (h : b.length < 2 ^ 64) :
    (Portal.RLPWriter.writeBytes b >>= readBytes) = .ok b := by
  rw [Portal.RLPWriter.writeBytes_eq h, ok_bind, readBytes, mapError_eq_ok]
  exact readBytes_encodes (encodes_encodeString h)

theorem readList_of_isList (h : IsList b items) (hcount : items.length ≤ maxListLength) :
    readList b = .ok items := by
  obtain ⟨rfl, hsize, hitems⟩ := h
  rw [readList, mapError_eq_ok]
  exact readList_encodeList (fun item hitem => (hitems item hitem).encodes) hsize hcount

/-- What is canonical is read. What is read is canonical unless a header announces another length
than that of what follows or is longer than it need be, or an item of a list is not canonical. -/
theorem rlpReader_canonical_iff (b : Bytes) :
    (b.length < 2 ^ 64 → (Portal.RLPWriter.writeBytes b >>= readBytes) = .ok b) ∧
    (∀ items, IsList b items → items.length ≤ maxListLength → readList b = .ok items) ∧
    ((∀ items, readList b = .ok items → IsList b items) ↔
      ∀ front n items, ListReading b front n items → n = items.flatten.length ∧
        front = encodeLength listOffset n ∧ ∀ item ∈ items, Canonical item) ∧
    ((∀ content, readBytes b = .ok content → IsString b content) ↔
      ∀ front content rest, StringReading b front content rest →
        rest = [] ∧ front ++ content = encodeString content) :=
  ⟨readBytes_writeBytes, fun _ => readList_of_isList, readList_canonical_iff b,
    readBytes_canonical_iff b⟩

/-- The header of the empty list before one item, and a header that a small byte does not need. -/
theorem loose_encodings_read :
    readList [0xc0, 0x00] = .ok [[0x00]] ∧ encodeList [[0x00]] = [0xc1, 0x00] ∧
      readBytes [0x81, 0x05] = .ok [0x05] ∧ encodeString [0x05] = [0x05] := by
  decide

end Bedrock.RLPReader
