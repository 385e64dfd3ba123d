import Mathlib.Tactic

/-! Perfect binary trees of hashes. A node is found by its height and its position in the row, and a
leaf is tied to the root by its siblings on the way up. -/
namespace MerkleTree

variable {α : Type*} (node : α → α → α)

section Tree

variable (leaf : ℕ → α)

def value : ℕ → ℕ → α
  | 0, p => leaf p
  | h + 1, p => node (value h (2 * p)) (value h (2 * p + 1))

def uniform (zero : α) : ℕ → α
  | 0 => zero
  | h + 1 => node (uniform zero h) (uniform zero h)

def sibling (p : ℕ) : ℕ := if p % 2 = 1 then p - 1 else p + 1

def path : ℕ → ℕ → ℕ → List α
  | 0, _, _ => []
  | k + 1, h, p => value node leaf h (sibling p) :: path k (h + 1) (p / 2)

def arrange (p : ℕ) (x sib : α) : α × α := if p % 2 = 1 then (sib, x) else (x, sib)

def climb : α → ℕ → List α → α
  | x, _, [] => x
  | x, p, sib :: sibs => climb (node (arrange p x sib).1 (arrange p x sib).2) (p / 2) sibs

def hashed : α → ℕ → List α → List (α × α)
  | _, _, [] => []
  | x, p, sib :: sibs =>
    arrange p x sib :: hashed (node (arrange p x sib).1 (arrange p x sib).2) (p / 2) sibs

end Tree

variable {node} {leaf : ℕ → α}

@[simp] theorem length_path (k h p : ℕ) : (path node leaf k h p).length = k := by
  induction k generalizing h p with
  | zero => rfl
  | succ k ih => rw [path, List.length_cons, ih]

variable {p h : ℕ}

theorem value_eq_uniform {zero : α} {n : ℕ} (hleaf : ∀ q, n ≤ q → leaf q = zero)
    (hp : n ≤ p * 2 ^ h) : value node leaf h p = uniform node zero h := by
  induction h generalizing p with
  | zero => exact hleaf p (by simpa using hp)
  | succ h ih =>
    have hleft : n ≤ 2 * p * 2 ^ h := by
      rw [pow_succ] at hp
      linarith
    have hright : n ≤ (2 * p + 1) * 2 ^ h := hleft.trans (Nat.mul_le_mul_right _ (by omega))
    rw [value, uniform, ih hleft, ih hright]

theorem value_congr {leaf leaf' : ℕ → α} (hleaf : ∀ q < (p + 1) * 2 ^ h, leaf q = leaf' q) :
    value node leaf h p = value node leaf' h p := by
  induction h generalizing p with
  | zero => exact hleaf p (by simp)
  | succ h ih =>
    have hchild (c : ℕ) (hc : c + 1 ≤ 2 * (p + 1)) :
        value node leaf h c = value node leaf' h c := by
      apply ih
      intro q hq
      apply hleaf
      calc q < (c + 1) * 2 ^ h := hq
        _ ≤ 2 * (p + 1) * 2 ^ h := Nat.mul_le_mul_right _ hc
        _ = (p + 1) * 2 ^ (h + 1) := by ring
    rw [value, value, hchild _ (by omega), hchild _ (by omega)]

theorem sibling_lt {k : ℕ} (h : p < 2 ^ (k + 1)) : sibling p < 2 ^ (k + 1) := by
  have hpow : 2 ^ (k + 1) = 2 * 2 ^ k := pow_succ' 2 k
  unfold sibling
  split
  next => omega
  next => omega

theorem path_congr {leaf leaf' : ℕ → α} {k : ℕ} (hp : p < 2 ^ k)
    (hleaf : ∀ q < 2 ^ (h + k), leaf q = leaf' q) :
    path node leaf k h p = path node leaf' k h p := by
  induction k generalizing h p with
  | zero => rfl
  | succ k ih =>
    have hsib : value node leaf h (sibling p) = value node leaf' h (sibling p) := by
      apply value_congr
      intro q hq
      apply hleaf
      calc q < (sibling p + 1) * 2 ^ h := hq
        _ ≤ 2 ^ (k + 1) * 2 ^ h := Nat.mul_le_mul_right _ (sibling_lt hp)
        _ = 2 ^ (h + (k + 1)) := by ring
    have hrest : path node leaf k (h + 1) (p / 2) = path node leaf' k (h + 1) (p / 2) := by
      apply ih
      · rw [pow_succ] at hp
        omega
      · intro q hq
        apply hleaf
        rwa [Nat.add_assoc, Nat.add_comm 1 k] at hq
    rw [path, path, hsib, hrest]

theorem arrange_sibling (h p : ℕ) :
    arrange p (value node leaf h p) (value node leaf h (sibling p)) =
      (value node leaf h (2 * (p / 2)), value node leaf h (2 * (p / 2) + 1)) := by
  unfold arrange sibling
  split
  next hodd =>
    have hp : p = 2 * (p / 2) + 1 := by omega
    rw [← hp, show 2 * (p / 2) = p - 1 by omega]
  next heven => rw [show 2 * (p / 2) = p by omega]

theorem climb_path (node : α → α → α) (leaf : ℕ → α) (k h p : ℕ) :
    climb node (value node leaf h p) p (path node leaf k h p) =
      value node leaf (h + k) (p / 2 ^ k) := by
  induction k generalizing h p with
  | zero => simp [climb, path]
  | succ k ih =>
    rw [path, climb, arrange_sibling]
    change climb node (value node leaf (h + 1) (p / 2)) (p / 2) _ = _
    rw [ih, Nat.div_div_eq_div_mul, ← pow_succ', Nat.add_right_comm, Nat.add_assoc]

theorem arrange_injective {x y sib sib' : α} (h : arrange p x sib = arrange p y sib') :
    x = y ∧ sib = sib' := by
  unfold arrange at h
  split at h
  next =>
    cases h
    exact ⟨rfl, rfl⟩
  next =>
    cases h
    exact ⟨rfl, rfl⟩

theorem eq_of_climb_eq {x y : α} {sibs sibs' : List α} (hlength : sibs.length = sibs'.length) (hinj
      : Set.InjOn (fun pair : α × α => node pair.1 pair.2) {pair | pair ∈ hashed node x p sibs ∨
      pair ∈ hashed node y p sibs'}) (h : climb node x p sibs = climb node y p sibs') :
    x = y ∧ sibs = sibs' := by
  induction sibs generalizing x y p sibs' with
  | nil =>
    obtain rfl := List.length_eq_zero_iff.mp hlength.symm
    exact ⟨h, rfl⟩
  | cons sib sibs ih =>
    cases sibs' with
    | nil => simp at hlength
    | cons =>
      rw [climb, climb] at h
      have hrest := ih (by simpa using hlength) (hinj.mono ?_) h
      · have hpair := hinj (.inl List.mem_cons_self) (.inr List.mem_cons_self) hrest.1
        obtain ⟨hx, hsib⟩ := arrange_injective hpair
        exact ⟨hx, by rw [hsib, hrest.2]⟩
      · rintro pair (hpair | hpair)
        · exact .inl (List.mem_cons_of_mem _ hpair)
        · exact .inr (List.mem_cons_of_mem _ hpair)

end MerkleTree
