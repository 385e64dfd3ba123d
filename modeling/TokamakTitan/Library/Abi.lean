import TokamakTitan.Library.BigEndian

/-! The contract ABI's encoding of static words and of one dynamic byte string among them, and
reads of call data, which is zero beyond its end. -/
namespace Abi
open BigEndian List

abbrev Bytes := List UInt8

abbrev Word := BitVec 256

def word (x : Word) : Bytes := encode 32 x.toNat

def words (ws : List Word) : Bytes := ws.flatMap word

def padding (n : ℕ) : ℕ := (32 - n % 32) % 32

def tail (b : Bytes) : Bytes :=
  encode 32 b.length ++ b ++ List.replicate (padding b.length) 0

/-- `abi.encode` of static words, then a byte string, then static words: the head of the byte
string is the offset of its tail. -/
def encodeBytes (before : List Word) (b : Bytes) (after : List Word) : Bytes :=
  words before ++ encode 32 (32 * (before.length + 1 + after.length)) ++ words after ++ tail b

def calldataload (data : Bytes) (p : ℕ) : Word :=
  BitVec.ofNat 256 (decode ((List.range 32).map fun i => data.getD (p + i) 0))

def decodeAddress (args : Bytes) (head : ℕ) : Option (BitVec 160) :=
  let value := calldataload args head
  if value.toNat < 2 ^ 160 then some (value.setWidth 160) else none

/-- The byte string whose head is at `head`. Its offset is free, as long as it stays inside. -/
def decodeBytes (args : Bytes) (head : ℕ) : Option Bytes :=
  let offset := (calldataload args head).toNat
  if offset < 2 ^ 64 ∧ offset + 31 < args.length then
    let length := (calldataload args offset).toNat
    if length < 2 ^ 64 ∧ offset + 32 + length ≤ args.length then
      some ((args.drop (offset + 32)).take length)
    else none
  else none

@[simp] theorem length_word (x : Word) : (word x).length = 32 := length_encode 32 _

theorem word_inj {x y : Word} (h : word x = word y) : x = y := by
  apply BitVec.eq_of_toNat_eq
  exact encode_inj_of_lt x.isLt y.isLt h

theorem map_getD_range (before xs after : Bytes) :
    (range xs.length).map (fun i => (before ++ (xs ++ after)).getD (before.length + i) 0) =
      xs := by
  apply ext_getElem (by simp)
  intro i hi hlt
  rw [getElem_map, getElem_range, getD_eq_getElem?_getD,
    getElem?_append_right (by omega), Nat.add_sub_cancel_left,
    getElem?_append_left hlt, getElem?_eq_getElem hlt, Option.getD_some]

variable (before : Bytes)

theorem calldataload_encode {n : ℕ} (hn : n < 2 ^ 256) (after : Bytes) :
    calldataload (before ++ (encode 32 n ++ after)) before.length = BitVec.ofNat 256 n := by
  have hread := map_getD_range before (encode 32 n) after
  rw [length_encode] at hread
  rw [calldataload, hread, decode_encode hn]

theorem calldataload_word (x : Word) (after : Bytes) :
    calldataload (before ++ (word x ++ after)) before.length = x := by
  rw [word, calldataload_encode before x.isLt, BitVec.ofNat_toNat, BitVec.setWidth_eq]

@[simp] theorem length_words (ws : List Word) : (words ws).length = 32 * ws.length := by
  induction ws with
  | nil => rfl
  | cons x ws ih =>
    rw [words, flatMap_cons, length_append, ← words, ih, length_word, length_cons]
    ring

theorem words_inj {ws vs : List Word} (h : words ws = words vs) : ws = vs := by
  induction ws generalizing vs with
  | nil =>
    have hlen := congrArg length h
    rw [length_words, length_words] at hlen
    exact (length_eq_zero_iff.mp (by simpa using hlen.symm)).symm
  | cons x ws ih =>
    cases vs with
    | nil =>
      have hlen := congrArg length h
      rw [length_words, length_words, length_cons, length_nil] at hlen
      omega
    | cons =>
      simp only [words, flatMap_cons] at h
      obtain ⟨hx, hws⟩ := append_inj h (by simp)
      rw [word_inj hx, ih hws]

theorem length_tail (b : Bytes) : (tail b).length = 32 + (b.length + padding b.length) := by
  simp [tail]

theorem tail_inj {b c : Bytes} (h : tail b = tail c) : b = c := by
  have hlen := congrArg length h
  rw [length_tail, length_tail] at hlen
  simp only [tail, append_assoc] at h
  obtain ⟨hword, hrest⟩ := append_inj h (by simp)
  rw [encode_inj] at hword
  have heq : b.length = c.length := by
    unfold padding at hlen
    omega
  exact (append_inj hrest heq).1

theorem encodeBytes_inj {before before' after after' : List Word} {b b' : Bytes}
    (hbefore : before.length = before'.length) (hafter : after.length = after'.length)
    (h : encodeBytes before b after = encodeBytes before' b' after') :
    before = before' ∧ b = b' ∧ after = after' := by
  simp only [encodeBytes, append_assoc] at h
  obtain ⟨h₁, h⟩ := append_inj h (by simp [hbefore])
  obtain ⟨-, h⟩ := append_inj h (by simp)
  obtain ⟨h₂, h⟩ := append_inj h (by simp [hafter])
  exact ⟨words_inj h₁, tail_inj h, words_inj h₂⟩

theorem decodeAddress_word (a : BitVec 160) (after : Bytes) :
    decodeAddress (before ++ (word (a.setWidth 256) ++ after)) before.length = some a := by
  have ha := a.isLt
  have hnat : (a.setWidth 256).toNat = a.toNat := by
    rw [BitVec.toNat_setWidth]
    omega
  rw [decodeAddress, calldataload_word, hnat, if_pos ha,
    BitVec.setWidth_setWidth_of_le _ (by norm_num), BitVec.setWidth_eq]

theorem decodeBytes_encodeBytes (before after : List Word) (b : Bytes) (hb : b.length < 2 ^ 64)
    (hwords : before.length + 1 + after.length < 2 ^ 59) :
    decodeBytes (encodeBytes before b after) (32 * before.length) = some b := by
  generalize hposition : 32 * (before.length + 1 + after.length) = position
  have hsplit : encodeBytes before b after = (words before ++ encode 32 position ++ words after) ++
      (encode 32 b.length ++ (b ++ replicate (padding b.length) 0)) := by
    simp only [encodeBytes, tail, hposition, append_assoc]
  have hheads : (words before ++ encode 32 position ++ words after).length = position := by
    simp only [length_append, length_words, length_encode]
    omega
  have hoffset : (calldataload (encodeBytes before b after) (32 * before.length)).toNat =
      position := by
    rw [hsplit, append_assoc, append_assoc, ← length_words before,
      calldataload_encode _ (by omega), BitVec.toNat_ofNat, Nat.mod_eq_of_lt (by omega)]
  have hlength : (calldataload (encodeBytes before b after) position).toNat = b.length := by
    have hread := calldataload_encode (words before ++ encode 32 position ++ words after)
      (n := b.length) (by omega) (b ++ replicate (padding b.length) 0)
    rw [hheads, ← hsplit] at hread
    rw [hread, BitVec.toNat_ofNat, Nat.mod_eq_of_lt (by omega)]
  have hdata : ((encodeBytes before b after).drop (position + 32)).take b.length = b := by
    have hlen : (words before ++ encode 32 position ++ words after ++
        encode 32 b.length).length = position + 32 := by
      rw [length_append, hheads, length_encode]
    rw [hsplit, ← append_assoc, drop_left' hlen, take_left]
  have htotal : (encodeBytes before b after).length =
      position + (32 + (b.length + padding b.length)) := by
    rw [hsplit, length_append, hheads]
    simp
  simp only [decodeBytes, hoffset, hlength, hdata, htotal]
  rw [if_pos ⟨by omega, by omega⟩, if_pos ⟨hb, by omega⟩]

end Abi
