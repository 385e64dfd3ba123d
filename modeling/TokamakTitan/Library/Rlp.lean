import TokamakTitan.Library.BigEndian

/-! Recursive length prefix encoding. A string or a list is its length header followed by its
content; a single byte below `0x80` is its own encoding. -/
namespace Rlp
open BigEndian List

abbrev Bytes := List UInt8

def byteLength (n : ℕ) : ℕ := Nat.log 256 n + 1

/-- The header of `n` bytes of content: one byte, or the length of the length and the length. -/
def encodeLength (offset n : ℕ) : Bytes :=
  if n < 56 then [UInt8.ofNat (offset + n)]
  else UInt8.ofNat (offset + 55 + byteLength n) :: encode (byteLength n) n

def stringOffset : ℕ := 0x80

def listOffset : ℕ := 0xc0

def encodeString (b : Bytes) : Bytes :=
  if b.length = 1 ∧ (b.headD 0).toNat < 0x80 then b
  else encodeLength stringOffset b.length ++ b

variable (items : List Bytes)

def encodeList : Bytes :=
  encodeLength listOffset items.flatten.length ++ items.flatten

def uintBytes (n : ℕ) : Bytes := if n = 0 then [] else encode (byteLength n) n

theorem byteLength_pos (n : ℕ) : 0 < byteLength n := Nat.succ_pos _

theorem lt_pow_byteLength (n : ℕ) : n < 256 ^ byteLength n :=
  Nat.lt_pow_succ_log_self (by norm_num) n

variable {n : ℕ}

theorem byteLength_le (h : n < 2 ^ 64) : byteLength n ≤ 8 := by
  have hlog : Nat.log 256 n < 8 := Nat.log_lt_of_lt_pow' (by norm_num) (by norm_num; omega)
  unfold byteLength
  omega

theorem encodeLength_short (offset : ℕ) (h : n < 56) :
    encodeLength offset n = [UInt8.ofNat (offset + n)] := if_pos h

theorem encodeLength_long (offset : ℕ) (h : ¬ n < 56) :
    encodeLength offset n =
      UInt8.ofNat (offset + 55 + byteLength n) :: encode (byteLength n) n := if_neg h

theorem length_encodeLength_pos (offset n : ℕ) : 0 < (encodeLength offset n).length := by
  unfold encodeLength
  split
  · simp
  · simp

theorem length_encodeLength_le (offset : ℕ) (h : n < 2 ^ 64) :
    (encodeLength offset n).length ≤ 9 := by
  have hbytes := byteLength_le h
  unfold encodeLength
  split
  · simp
  · simp only [length_cons, length_encode]
    omega

theorem encodeString_byte {x : UInt8} (h : x.toNat < 0x80) : encodeString [x] = [x] := by
  unfold encodeString
  rw [if_pos ⟨rfl, h⟩]

variable {b : Bytes}

theorem encodeString_header (h : ¬ (b.length = 1 ∧ (b.headD 0).toNat < 0x80)) :
    encodeString b = encodeLength stringOffset b.length ++ b := if_neg h

theorem length_encodeString_pos (b : Bytes) : 0 < (encodeString b).length := by
  unfold encodeString
  split
  next h => omega
  next =>
    have hpos := length_encodeLength_pos stringOffset b.length
    rw [length_append]
    omega

theorem length_le_encodeString (b : Bytes) : b.length ≤ (encodeString b).length := by
  unfold encodeString
  split
  · exact le_rfl
  · rw [length_append]
    omega

theorem length_encodeString_le (h : b.length < 2 ^ 64) :
    (encodeString b).length ≤ b.length + 9 := by
  have hheader := length_encodeLength_le stringOffset h
  unfold encodeString
  split
  · omega
  · rw [length_append]
    omega

theorem length_encodeList_pos : 0 < (encodeList items).length := by
  have hpos := length_encodeLength_pos listOffset items.flatten.length
  rw [encodeList, length_append]
  omega

theorem length_flatten_lt : items.flatten.length < (encodeList items).length := by
  have hpos := length_encodeLength_pos listOffset items.flatten.length
  rw [encodeList, length_append]
  omega

variable {items : List Bytes}

theorem length_encodeList_le (h : items.flatten.length < 2 ^ 64) :
    (encodeList items).length ≤ items.flatten.length + 9 := by
  have hheader := length_encodeLength_le listOffset h
  rw [encodeList, length_append]
  omega

theorem encodeList_short (h : items.flatten.length < 56) :
    encodeList items = UInt8.ofNat (listOffset + items.flatten.length) :: items.flatten := by
  rw [encodeList, encodeLength_short listOffset h, singleton_append]

end Rlp
