import Mathlib.Data.BitVec

/-! Code that may revert, in `Except`: requirements, and the checked arithmetic of unsigned machine
integers. A successful computation is taken apart by the `_eq_ok` lemmas. -/
namespace Checked
open BitVec

/-- Why a call reverted: a reason string, the code of a failed built-in check, or no data. -/
inductive Revert where
  | reason (message : String)
  | panic (code : ℕ)
  | bare
  deriving DecidableEq

abbrev Result (α : Type*) := Except Revert α

abbrev Uint24 := BitVec 24

abbrev Uint32 := BitVec 32

abbrev Uint40 := BitVec 40

abbrev Uint256 := BitVec 256

abbrev Bytes32 := BitVec 256

abbrev Address := BitVec 160

section Bind

universe u v

variable {ε : Type u} {α β : Type v}

variable {f : α → Except ε β} {x : Except ε α}

theorem bind_eq_ok {b : β} : (x >>= f) = .ok b ↔ ∃ a, x = .ok a ∧ f a = .ok b := by
  cases x with
  | error => simp [bind, Except.bind]
  | ok => simp [bind, Except.bind]

theorem bind_eq_error {e : ε} :
    (x >>= f) = .error e ↔ x = .error e ∨ ∃ a, x = .ok a ∧ f a = .error e := by
  cases x with
  | error => simp [bind, Except.bind]
  | ok => simp [bind, Except.bind]

theorem ok_bind (a : α) (f : α → Except ε β) : (Except.ok a >>= f) = f a := rfl

theorem mapError_eq_ok {δ : Type*} {f : ε → δ} {a : α} : x.mapError f = .ok a ↔ x = .ok a := by
  cases x with
  | error => simp [Except.mapError]
  | ok => simp [Except.mapError]

theorem pure_eq_ok {a b : α} : (pure a : Except ε α) = .ok b ↔ a = b := by
  simp [pure, Except.pure]

theorem mapM_eq_ok {xs : List α} {ys : List β} :
    xs.mapM f = .ok ys ↔ List.Forall₂ (fun x y => f x = .ok y) xs ys := by
  induction xs generalizing ys with
  | nil =>
    rw [List.mapM_nil, pure_eq_ok, List.forall₂_nil_left_iff, eq_comm]
  | cons x xs ih =>
    rw [List.mapM_cons, bind_eq_ok, List.forall₂_cons_left_iff]
    constructor
    · rintro ⟨y, hy, h⟩
      rw [bind_eq_ok] at h
      obtain ⟨rest, hrest, h⟩ := h
      exact ⟨y, rest, hy, ih.mp hrest, (pure_eq_ok.mp h).symm⟩
    · rintro ⟨y, rest, hy, hrest, rfl⟩
      refine ⟨y, hy, ?_⟩
      rw [bind_eq_ok]
      exact ⟨rest, ih.mpr hrest, rfl⟩

end Bind

/-- A big integer as a floating-point number, with the error `e` if it is not a safe integer. -/
def safeNumber {ε : Type*} (e : ε) (n : ℕ) : Except ε ℕ := if n < 2 ^ 53 then .ok n else .error e

theorem safeNumber_eq_ok {ε : Type*} {e : ε} {n m : ℕ} :
    safeNumber e n = .ok m ↔ n < 2 ^ 53 ∧ m = n := by
  unfold safeNumber
  split
  next h => rw [and_iff_right h, Except.ok.injEq, eq_comm]
  next h => exact iff_of_false (by rintro ⟨⟩) fun hm => h hm.1

theorem safeNumber_of_lt {ε : Type*} {e : ε} {n : ℕ} (h : n < 2 ^ 53) : safeNumber e n = .ok n :=
  if_pos h

def require (p : Prop) [Decidable p] (message : String) : Result Unit :=
  if p then .ok () else .error (.reason message)

/-- The codes of a failed assertion, of arithmetic overflow, of division by zero and of an index
out of bounds. -/
def assertPanic : ℕ := 0x01

def arithmeticPanic : ℕ := 0x11

def divisionPanic : ℕ := 0x12

def indexPanic : ℕ := 0x32

def assert (p : Prop) [Decidable p] : Result Unit :=
  if p then .ok () else .error (.panic assertPanic)

variable {w : ℕ} (a b : BitVec w)

def add : Result (BitVec w) :=
  if a.toNat + b.toNat < 2 ^ w then .ok (a + b) else .error (.panic arithmeticPanic)

def sub : Result (BitVec w) :=
  if b.toNat ≤ a.toNat then .ok (a - b) else .error (.panic arithmeticPanic)

def mul : Result (BitVec w) :=
  if a.toNat * b.toNat < 2 ^ w then .ok (a * b) else .error (.panic arithmeticPanic)

def div : Result (BitVec w) :=
  if b.toNat = 0 then .error (.panic divisionPanic) else .ok (a / b)

def mod : Result (BitVec w) :=
  if b.toNat = 0 then .error (.panic divisionPanic) else .ok (a % b)

def int256 (x : ℤ) : Result ℤ :=
  if -2 ^ 255 ≤ x ∧ x < 2 ^ 255 then .ok x else .error (.panic arithmeticPanic)

def pred (n : ℕ) : Result ℕ :=
  if n = 0 then .error (.panic arithmeticPanic) else .ok (n - 1)

def index {α : Type*} (xs : List α) (i : ℕ) : Result α :=
  match xs[i]? with
  | some x => .ok x
  | none => .error (.panic indexPanic)

theorem require_eq_ok {p : Prop} [Decidable p] {message : String} {u : Unit} :
    require p message = .ok u ↔ p := by
  unfold require
  split
  next h => simp [h]
  next h => simp [h]

theorem assert_eq_ok {p : Prop} [Decidable p] {u : Unit} : assert p = .ok u ↔ p := by
  unfold assert
  split
  next h => simp [h]
  next h => simp [h]

variable {a b c : BitVec w}

theorem add_eq_ok : add a b = .ok c ↔ a.toNat + b.toNat = c.toNat := by
  have hc := c.isLt
  unfold add
  split
  next h =>
    rw [Except.ok.injEq, toNat_eq, toNat_add, Nat.mod_eq_of_lt h]
  next h =>
    constructor
    · intro heq
      cases heq
    · intro heq
      omega

theorem sub_eq_ok : sub a b = .ok c ↔ a.toNat = b.toNat + c.toNat := by
  unfold sub
  split
  next h =>
    rw [Except.ok.injEq, toNat_eq, toNat_sub_of_le (le_def.mpr h)]
    omega
  next h =>
    constructor
    · intro heq
      cases heq
    · intro heq
      omega

theorem mul_eq_ok : mul a b = .ok c ↔ a.toNat * b.toNat = c.toNat := by
  have hc := c.isLt
  unfold mul
  split
  next h =>
    rw [Except.ok.injEq, toNat_eq, toNat_mul, Nat.mod_eq_of_lt h]
  next h =>
    constructor
    · intro heq
      cases heq
    · intro heq
      omega

theorem div_eq_ok (h : 0 < b.toNat) : div a b = .ok c ↔ a.toNat / b.toNat = c.toNat := by
  rw [div, if_neg (by omega), Except.ok.injEq, toNat_eq, toNat_udiv]

theorem mod_of_pos (h : 0 < b.toNat) : mod a b = .ok (a % b) := by
  rw [mod, if_neg (by omega)]

theorem pred_eq_ok {n m : ℕ} : pred n = .ok m ↔ n = m + 1 := by
  unfold pred
  split
  next h => simp [h]
  next h =>
    rw [Except.ok.injEq]
    omega

theorem index_eq_ok {α : Type*} {xs : List α} {i : ℕ} {x : α} :
    index xs i = .ok x ↔ xs[i]? = some x := by
  unfold index
  split
  next y h => simp [h]
  next h => simp [h]

theorem eq_ok_getD {x : Except ε α} {a : α} (h : x.toOption.isSome) :
    x = .ok (x.toOption.getD a) := by
  cases x with
  | error => cases h
  | ok => rfl

end Checked
