import TokamakTitan.Library.BigEndian

/-! Byte strings as hexadecimal digits, two for each byte. -/
namespace Hex
open BigEndian List Nat

abbrev Bytes := List UInt8

variable (x : UInt8)

def byteDigits : List Char :=
  [Nat.digitChar (x.toNat / 16), Nat.digitChar (x.toNat % 16)]

def digits (b : Bytes) : List Char := b.flatMap byteDigits

def digit? (c : Char) : Option ℕ :=
  if '0' ≤ c ∧ c ≤ '9' then some (c.toNat - 48)
  else if 'a' ≤ c ∧ c ≤ 'f' then some (c.toNat - 87)
  else if 'A' ≤ c ∧ c ≤ 'F' then some (c.toNat - 55)
  else none

def parseFrom (n : ℕ) : List Char → Option ℕ
  | [] => some n
  | c :: cs =>
    match digit? c with
    | some d => parseFrom (n * 16 + d) cs
    | none => none

def bytes? : List Char → Option Bytes
  | [] => some []
  | [_] => none
  | high :: low :: cs =>
    match digit? high, digit? low, bytes? cs with
    | some h, some l, some b => some (UInt8.ofNat (h * 16 + l) :: b)
    | _, _, _ => none

theorem digit?_digitChar {n : ℕ} (h : n < 16) : digit? (digitChar n) = some n := by
  interval_cases n <;> decide

theorem digit?_high : digit? (digitChar (x.toNat / 16)) = some (x.toNat / 16) :=
  digit?_digitChar (by have := x.toNat_lt; omega)

theorem digit?_low : digit? (digitChar (x.toNat % 16)) = some (x.toNat % 16) :=
  digit?_digitChar (by omega)

@[simp] theorem digits_cons (b : Bytes) :
    digits (x :: b) =
      digitChar (x.toNat / 16) :: digitChar (x.toNat % 16) :: digits b := rfl

@[simp] theorem digits_nil : digits [] = [] := rfl

variable (b : Bytes)

@[simp] theorem length_digits : (digits b).length = 2 * b.length := by
  induction b with
  | nil => rfl
  | cons x b ih =>
    rw [digits_cons, length_cons, length_cons, length_cons, ih]
    omega

theorem digits_take (n : ℕ) : (digits b).take (2 * n) = digits (b.take n) := by
  induction b generalizing n with
  | nil => simp
  | cons x b ih =>
    cases n with
    | zero => simp
    | succ => simp [mul_succ, ih]

theorem digits_drop (n : ℕ) : (digits b).drop (2 * n) = digits (b.drop n) := by
  induction b generalizing n with
  | nil => simp
  | cons x b ih =>
    cases n with
    | zero => simp
    | succ => simp [mul_succ, ih]

theorem parseFrom_digits (n : ℕ) (b : Bytes) :
    parseFrom n (digits b) = some (n * 256 ^ b.length + decode b) := by
  induction b generalizing n with
  | nil => simp [parseFrom]
  | cons x b ih =>
    have hdecode : decode (x :: b) = x.toNat * 256 ^ b.length + decode b := by
      rw [← singleton_append, decode_append]
      simp [decode]
    have hbyte : (n * 16 + x.toNat / 16) * 16 + x.toNat % 16 = n * 256 + x.toNat := by omega
    simp only [digits_cons, parseFrom, digit?_high, digit?_low, ih, Option.some.injEq]
    rw [hbyte, hdecode, length_cons, pow_succ]
    ring

theorem bytes?_digits : bytes? (digits b) = some b := by
  induction b with
  | nil => rfl
  | cons x b ih =>
    have hbyte : UInt8.ofNat (x.toNat / 16 * 16 + x.toNat % 16) = x := by
      rw [div_add_mod', UInt8.ofNat_toNat]
    simp only [digits_cons, bytes?, digit?_high, digit?_low, ih, hbyte]

theorem digits_getElem? {b : Bytes} {i : ℕ} {x : UInt8} (h : b[i]? = some x) :
    (digits b)[2 * i]? = some (digitChar (x.toNat / 16)) := by
  rw [← add_zero (2 * i), ← getElem?_drop, digits_drop, drop_eq_getElem?_toList_append, h]
  rfl

end Hex
