import TokamakTitan.Library.BigEndian
import Mathlib.Data.Nat.Bitwise

/-! Memory of bytes with loads and stores of 32-byte words, and copies of any length: complete words
first, then the bytes that are left, through a mask that keeps what lies behind the destination. -/
abbrev Memory := ℕ → UInt8

namespace Memory
open BigEndian List

def load (m : Memory) (p n : ℕ) : List UInt8 := (List.range n).map fun i => m (p + i)

def store (m : Memory) (p : ℕ) (b : List UInt8) : Memory := fun q =>
  if q < p then m q else b.getD (q - p) (m q)

def mload (m : Memory) (p : ℕ) : BitVec 256 := BitVec.ofNat 256 (decode (m.load p 32))

def mstore (m : Memory) (p : ℕ) (w : BitVec 256) : Memory := m.store p (encode 32 w.toNat)

def copyWords (m : Memory) (dest src : ℕ) : ℕ → Memory
  | 0 => m
  | n + 1 => (m.mstore dest (m.mload src)).copyWords (dest + 32) (src + 32) n

/-- The low bytes behind the first `k` of a word. For `k = 0` the power wraps around to zero, and
the difference to the mask of the whole word. -/
def mask (k : ℕ) : BitVec 256 := BitVec.ofNat 256 (256 ^ (32 - k)) - 1

def copyMasked (m : Memory) (dest src k : ℕ) : Memory :=
  m.mstore dest ((m.mload src &&& ~~~mask k) ||| (m.mload dest &&& mask k))

def copy (m : Memory) (dest src n : ℕ) : Memory :=
  (m.copyWords dest src (n / 32)).copyMasked (dest + 32 * (n / 32)) (src + 32 * (n / 32)) (n % 32)

/-- The byte string behind the word at `p` with its length. -/
def bytesAt (m : Memory) (p : ℕ) : List UInt8 := m.load (p + 32) (m.mload p).toNat

variable {m : Memory} {p q n k : ℕ} {b : List UInt8}

@[simp] theorem length_load (m : Memory) (p n : ℕ) : (m.load p n).length = n := by simp [load]

theorem load_add (m : Memory) (p n k : ℕ) : m.load p (n + k) = m.load p n ++ m.load (p + n) k := by
  simp only [load, range_add, map_append, map_map, Function.comp_def, Nat.add_assoc]

theorem take_load (h : k ≤ n) : (m.load p n).take k = m.load p k := by
  rw [← Nat.add_sub_cancel' h, load_add, take_left' (length_load ..)]

theorem drop_load (h : k ≤ n) : (m.load p n).drop k = m.load (p + k) (n - k) := by
  nth_rewrite 1 [← Nat.add_sub_cancel' h]
  rw [load_add, drop_left' (length_load ..)]

theorem load_store_of_le (h : p + n ≤ q) : (m.store q b).load p n = m.load p n := by
  apply map_congr_left
  intro i hi
  rw [mem_range] at hi
  exact if_pos (by omega)

theorem load_store (m : Memory) (p : ℕ) (b : List UInt8) : (m.store p b).load p b.length = b := by
  apply ext_getElem (length_load ..)
  intro i _ hi
  simp [load, store, getD_eq_getElem?_getD, getElem?_eq_getElem hi]

theorem store_append (m : Memory) (p : ℕ) (a b : List UInt8) :
    (m.store p a).store (p + a.length) b = m.store p (a ++ b) := by
  funext q
  simp only [store, getD_eq_getElem?_getD]
  by_cases hlow : q < p
  · rw [if_pos (by omega), if_pos hlow, if_pos hlow]
  · rw [if_neg hlow, if_neg hlow]
    by_cases hmid : q < p + a.length
    · rw [if_pos hmid, getElem?_append_left (by omega)]
    · have hnone : a[q - p]? = none := getElem?_eq_none (by omega)
      rw [if_neg hmid, getElem?_append_right (by omega), hnone, Option.getD_none, Nat.sub_add_eq]

theorem store_load (m : Memory) (p n : ℕ) : m.store p (m.load p n) = m := by
  funext q
  unfold store
  split
  next => rfl
  next hle =>
    by_cases hlt : q - p < n
    · rw [getD_eq_getElem _ _ (by simpa using hlt)]
      simp only [load, getElem_map, getElem_range]
      rw [Nat.add_sub_cancel' (by omega)]
    · exact getD_eq_default _ _ (by simpa using hlt)

theorem store_append_load (m : Memory) (p : ℕ) (a : List UInt8) (n : ℕ) :
    m.store p (a ++ m.load (p + a.length) n) = m.store p a := by
  have hload : m.load (p + a.length) n = (m.store p a).load (p + a.length) n := by
    apply map_congr_left
    intro i _
    rw [store, if_neg (by omega), getD_eq_default _ _ (by omega)]
  rw [← store_append, hload, store_load]

theorem toNat_word (h : b.length = 32) : (BitVec.ofNat 256 (decode b)).toNat = decode b := by
  have hlt := decode_lt b
  rw [h] at hlt
  exact Nat.mod_eq_of_lt (hlt.trans_eq (by norm_num))

theorem encode_word (h : b.length = 32) : encode 32 (BitVec.ofNat 256 (decode b)).toNat = b := by
  have hencode := encode_decode b
  rwa [h, ← toNat_word h] at hencode

theorem mload_mstore (m : Memory) (p : ℕ) (w : BitVec 256) : (m.mstore p w).mload p = w := by
  have hword := load_store m p (encode 32 w.toNat)
  rw [length_encode] at hword
  rw [mload, mstore, hword, decode_encode (w.isLt.trans_eq (by norm_num)), BitVec.ofNat_toNat,
    BitVec.setWidth_eq]

theorem mload_store_of_le (h : p + 32 ≤ q) : (m.store q b).mload p = m.mload p := by
  rw [mload, load_store_of_le h, mload]

theorem mstore_mload (m : Memory) (dest src : ℕ) :
    m.mstore dest (m.mload src) = m.store dest (m.load src 32) := by
  rw [mstore, mload, encode_word (length_load ..)]

/-- The first `k` bytes of a word, as the quotient by the power of the bytes behind them. -/
theorem mload_div (hk : k ≤ 32) (m : Memory) (p : ℕ) :
    (m.mload p).toNat / 256 ^ (32 - k) = decode (m.load p k) := by
  have hlt := decode_lt (m.load (p + k) (32 - k))
  rw [length_load] at hlt
  rw [mload, toNat_word (length_load ..), ← Nat.add_sub_cancel' hk, load_add, decode_append,
    length_load, Nat.add_sub_cancel_left, Nat.mul_comm, Nat.mul_add_div (by positivity),
    Nat.div_eq_of_lt hlt, Nat.add_zero]

theorem store_word {dest src : ℕ} (h : src + (32 + n) ≤ dest) :
    (m.mstore dest (m.mload src)).store (dest + 32)
      ((m.mstore dest (m.mload src)).load (src + 32) n) = m.store dest (m.load src (32 + n)) := by
  have happend := m.store_append dest (m.load src 32) (m.load (src + 32) n)
  rw [length_load, ← load_add] at happend
  rw [mstore_mload, load_store_of_le (by omega), happend]

theorem bytesAt_store_of_le (h : q + 32 + (m.mload q).toNat ≤ p) :
    (m.store p b).bytesAt q = m.bytesAt q := by
  rw [bytesAt, mload_store_of_le (by omega), load_store_of_le h, bytesAt]

theorem copyWords_eq {dest src : ℕ} (h : src + 32 * n ≤ dest) :
    m.copyWords dest src n = m.store dest (m.load src (32 * n)) := by
  induction n generalizing m dest src with
  | zero => exact (m.store_load dest 0).symm
  | succ n ih =>
    rw [copyWords, ih (by omega), store_word (by omega), Nat.mul_succ, Nat.add_comm]

theorem getLsbD_mask (k i : ℕ) : (mask k).getLsbD i = decide (i < 8 * (32 - k)) := by
  have hpow : (256 : ℕ) ^ (32 - k) = 2 ^ (8 * (32 - k)) := by
    rw [show (256 : ℕ) = 2 ^ 8 by norm_num, ← pow_mul]
  have hle : 2 ^ (8 * (32 - k)) ≤ 2 ^ 256 := Nat.pow_le_pow_right (by norm_num) (by omega)
  have hpos : 0 < 2 ^ (8 * (32 - k)) := by positivity
  have hmask : (mask k).toNat = 2 ^ (8 * (32 - k)) - 1 := by
    rw [mask, hpow, BitVec.toNat_sub, BitVec.toNat_ofNat]
    change (2 ^ 256 - 1 + _) % 2 ^ 256 = _
    omega
  rw [BitVec.getLsbD, hmask, Nat.testBit_two_pow_sub_one]

theorem testBit_decode_append (a b : List UInt8) (i : ℕ) : (decode (a ++ b)).testBit i =
    if i < 8 * b.length then (decode b).testBit i else (decode a).testBit (i - 8 * b.length) := by
  have hpow : (256 : ℕ) ^ b.length = 2 ^ (8 * b.length) := by
    rw [show (256 : ℕ) = 2 ^ 8 by norm_num, ← pow_mul]
  have hlt := decode_lt b
  rw [hpow] at hlt
  rw [decode_append, hpow, Nat.mul_comm, Nat.testBit_two_pow_mul_add _ hlt]

/-- The first bytes of one word, and behind them those of another. -/
theorem masked_eq {a b c d : List UInt8} (hb : b.length = d.length) (hk : 32 - k = d.length) :
    (BitVec.ofNat 256 (decode (a ++ b)) &&& ~~~mask k) |||
      (BitVec.ofNat 256 (decode (c ++ d)) &&& mask k) = BitVec.ofNat 256 (decode (a ++ d)) := by
  apply BitVec.eq_of_getLsbD_eq
  intro i hi
  simp only [BitVec.getLsbD_or, BitVec.getLsbD_and, BitVec.getLsbD_not, BitVec.getLsbD_ofNat,
    getLsbD_mask, testBit_decode_append, hb, hk, hi]
  by_cases hlow : i < 8 * d.length
  · simp [hlow]
  · simp [hlow]

theorem copyMasked_eq (hk : k < 32) (dest src : ℕ) :
    m.copyMasked dest src k = m.store dest (m.load src k) := by
  have hsplit (p : ℕ) : m.load p 32 = m.load p k ++ m.load (p + k) (32 - k) := by
    rw [← load_add, Nat.add_sub_cancel' hk.le]
  have hlength : (m.load src k ++ m.load (dest + k) (32 - k)).length = 32 := by
    simp only [length_append, length_load]
    omega
  have hkept := m.store_append_load dest (m.load src k) (32 - k)
  rw [length_load] at hkept
  rw [copyMasked, mstore, mload, mload, hsplit src, hsplit dest,
    masked_eq (by simp) (by simp), encode_word hlength, hkept]

/-- A copy to above its source writes the bytes of the source and no others. -/
theorem copy_eq {dest src : ℕ} (h : src + n ≤ dest) :
    m.copy dest src n = m.store dest (m.load src n) := by
  have hrest : n % 32 < 32 := Nat.mod_lt _ (by norm_num)
  have hsum : 32 * (n / 32) + n % 32 = n := Nat.div_add_mod n 32
  have happend := m.store_append dest (m.load src (32 * (n / 32)))
    (m.load (src + 32 * (n / 32)) (n % 32))
  rw [length_load, ← load_add, hsum] at happend
  rw [copy, copyWords_eq (by omega), copyMasked_eq hrest, load_store_of_le (by omega), happend]

end Memory

/-- Memory in use below the free memory pointer. There is room for every byte string. -/
structure Heap where
  memory : Memory
  free : ℕ

namespace Heap
open BigEndian List Memory

variable (heap : Heap) (n : ℕ)

/-- A byte string of zeros at the free memory pointer, up to a whole number of words. -/
def newBytes : Heap where
  memory := (heap.memory.mstore heap.free (BitVec.ofNat 256 n)).store (heap.free + 32)
    (replicate ((n + 31) / 32 * 32) 0)
  free := heap.free + 32 + (n + 31) / 32 * 32

variable {heap}

theorem load_newBytes {p k : ℕ} (h : p + k ≤ heap.free) :
    (heap.newBytes n).memory.load p k = heap.memory.load p k := by
  rw [newBytes, load_store_of_le (by omega), mstore, load_store_of_le h]

theorem mload_newBytes {p : ℕ} (h : p + 32 ≤ heap.free) :
    (heap.newBytes n).memory.mload p = heap.memory.mload p := by
  rw [mload, load_newBytes n h, mload]

theorem bytesAt_newBytes {p : ℕ} (h : p + 32 + (heap.memory.mload p).toNat ≤ heap.free) :
    (heap.newBytes n).memory.bytesAt p = heap.memory.bytesAt p := by
  rw [bytesAt, mload_newBytes n (by omega), load_newBytes n h, bytesAt]

variable (heap)

theorem bytesAt_newBytes_store {b : List UInt8} (hb : b.length < 2 ^ 256) :
    ((heap.newBytes b.length).memory.store (heap.free + 32) b).bytesAt heap.free = b := by
  have hlength : (((heap.newBytes b.length).memory.store (heap.free + 32) b).mload
      heap.free).toNat = b.length := by
    rw [mload_store_of_le le_rfl, newBytes, mload_store_of_le le_rfl, mload_mstore,
      BitVec.toNat_ofNat, Nat.mod_eq_of_lt hb]
  rw [bytesAt, hlength, load_store]

theorem bytesAt_newBytes_zero : (heap.newBytes 0).memory.bytesAt heap.free = [] := by
  have hstore := heap.bytesAt_newBytes_store (b := []) (by norm_num)
  have hsame := (heap.newBytes 0).memory.store_load (heap.free + 32) 0
  exact (congrArg (·.bytesAt heap.free) hsame).symm.trans hstore

end Heap
