import Mathlib.Tactic

/-! Fixed-width big-endian numerals over lists of bytes, and reads that consume a
given number of bytes from the front of a list. -/
namespace BigEndian
open List Nat

def encode : ℕ → ℕ → List UInt8
  | 0, _ => []
  | n + 1, v => encode n (v / 256) ++ [UInt8.ofNat v]

variable (bs : List UInt8)

def decode : ℕ := bs.foldl (fun acc b => acc * 256 + b.toNat) 0

@[simp] theorem length_encode (n v : ℕ) : (encode n v).length = n := by
  induction n generalizing v with
  | zero => rfl
  | succ n ih => simp [encode, ih]

@[simp] theorem decode_nil : decode [] = 0 := rfl

theorem decode_concat (b : UInt8) : decode (bs ++ [b]) = decode bs * 256 + b.toNat := by
  simp [decode]

theorem decode_append (xs ys : List UInt8) :
    decode (xs ++ ys) = decode xs * 256 ^ ys.length + decode ys := by
  induction ys using reverseRecOn with
  | nil => simp
  | append_singleton ys b ih =>
    rw [← append_assoc, decode_concat, decode_concat, ih, length_append, length_singleton, pow_succ]
    ring

theorem decode_lt : decode bs < 256 ^ bs.length := by
  induction bs using reverseRecOn with
  | nil => simp
  | append_singleton bs b =>
    have hb : b.toNat < 256 := b.toNat_lt
    rw [decode_concat, length_append, length_singleton, pow_succ]
    omega

theorem decode_encode_mod (n v : ℕ) : decode (encode n v) = v % 256 ^ n := by
  induction n generalizing v with
  | zero => simp [encode, mod_one]
  | succ n ih =>
    have hp : 256 ^ (n + 1) = 256 * 256 ^ n := by ring
    rw [encode, decode_concat, ih, UInt8.toNat_ofNat', hp, mod_mul, mul_comm 256, add_comm]

variable {n v : ℕ}

theorem decode_encode (h : v < 256 ^ n) : decode (encode n v) = v := by
  rw [decode_encode_mod, mod_eq_of_lt h]

theorem encode_decode : encode bs.length (decode bs) = bs := by
  induction bs using reverseRecOn with
  | nil => rfl
  | append_singleton bs b ih =>
    have hb : b.toNat < 256 := b.toNat_lt
    have hdiv : (decode bs * 256 + b.toNat) / 256 = decode bs := by omega
    have hmod : UInt8.ofNat (decode bs * 256 + b.toNat) = b := by
      apply UInt8.toNat_inj.mp
      rw [UInt8.toNat_ofNat']
      omega
    rw [length_append, length_singleton, encode, decode_concat, hdiv, hmod, ih]

theorem encode_inj {w : ℕ} : encode n v = encode n w ↔ v % 256 ^ n = w % 256 ^ n := by
  constructor
  · intro h
    rw [← decode_encode_mod, ← decode_encode_mod, h]
  · intro h
    rw [← decode_encode_mod, ← decode_encode_mod] at h
    rw [← encode_decode (encode n v), ← encode_decode (encode n w), length_encode, length_encode, h]

theorem encode_inj_of_lt {w : ℕ} (hv : v < 256 ^ n) (hw : w < 256 ^ n)
    (h : encode n v = encode n w) : v = w := by
  rw [encode_inj, mod_eq_of_lt hv, mod_eq_of_lt hw] at h
  exact h

theorem encode_zero (n : ℕ) : encode n 0 = replicate n 0 := by
  induction n with
  | zero => rfl
  | succ n ih => simp [encode, ih, replicate_succ']

theorem encode_add_zeros {m : ℕ} (h : v < 256 ^ n) :
    encode (m + n) v = replicate m 0 ++ encode n v := by
  have hzeros : decode (replicate m 0) = 0 := by
    rw [← encode_zero, decode_encode (by positivity)]
  have hdecode : decode (replicate m 0 ++ encode n v) = v := by
    rw [decode_append, hzeros, decode_encode h, zero_mul, zero_add]
  have hencode := encode_decode (replicate m 0 ++ encode n v)
  rw [hdecode, length_append, length_replicate, length_encode] at hencode
  exact hencode

def readBytes (n : ℕ) (bs : List UInt8) : Option (List UInt8 × List UInt8) :=
  if n ≤ bs.length then some (bs.take n, bs.drop n) else none

def readNat (n : ℕ) (bs : List UInt8) : Option (ℕ × List UInt8) :=
  (readBytes n bs).map fun r => (decode r.1, r.2)

theorem readBytes_append {xs : List UInt8} (h : xs.length = n) (rest : List UInt8) :
    readBytes n (xs ++ rest) = some (xs, rest) := by
  subst h
  simp [readBytes]

theorem readNat_encode (h : v < 256 ^ n) (rest : List UInt8) :
    readNat n (encode n v ++ rest) = some (v, rest) := by
  rw [readNat, readBytes_append (length_encode n v), Option.map_some, decode_encode h]

end BigEndian
