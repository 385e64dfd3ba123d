import Mathlib.Tactic

/-! Fields of bits packed into one machine word: placing a field, joining words with disjoint
fields, and reading a field back through a mask. -/
namespace BitField
open BitVec

variable {w : ℕ}

def field (x : BitVec w) (offset n : ℕ) : BitVec n := x.extractLsb' offset n

def place (w : ℕ) {n : ℕ} (a : BitVec n) (offset : ℕ) : BitVec w := a.setWidth w <<< offset

def mask (w offset n : ℕ) : BitVec w := place w (BitVec.allOnes n) offset

theorem getLsbD_field (x : BitVec w) (offset n i : ℕ) :
    (field x offset n).getLsbD i = (decide (i < n) && x.getLsbD (offset + i)) := by
  simp [field]

variable {n : ℕ}

theorem getLsbD_place (a : BitVec n) (offset i : ℕ) :
    (place w a offset).getLsbD i =
      (decide (i < w) && decide (offset ≤ i) && a.getLsbD (i - offset)) := by
  by_cases hw : i < w
  · by_cases ho : offset ≤ i
    · simp [place, hw, ho]
    · have hlt : i < offset := by omega
      simp [place, hlt]
  · have hle : w ≤ i := by omega
    simp [hw, getLsbD_of_ge, hle]

theorem field_or (x y : BitVec w) (offset n : ℕ) :
    field (x ||| y) offset n = field x offset n ||| field y offset n := by
  apply eq_of_getLsbD_eq
  intro i hi
  simp only [getLsbD_field, getLsbD_or]
  cases decide (i < n) <;> rfl

variable {offset : ℕ}

theorem field_place (a : BitVec n) (h : offset + n ≤ w) :
    field (place w a offset) offset n = a := by
  apply eq_of_getLsbD_eq
  intro i hi
  have hw : offset + i < w := by omega
  rw [getLsbD_field, getLsbD_place, Nat.add_sub_cancel_left]
  simp only [hi, hw, Nat.le_add_right, decide_true, Bool.true_and]

theorem field_place_disjoint {m position : ℕ} (a : BitVec m)
    (h : offset + n ≤ position ∨ position + m ≤ offset) :
    field (place w a position) offset n = 0#n := by
  apply eq_of_getLsbD_eq
  intro i hi
  rw [getLsbD_field, getLsbD_place, getLsbD_zero]
  rcases h with h | h
  · have hlt : ¬ position ≤ offset + i := by omega
    simp [hlt]
  · have hge : m ≤ offset + i - position := by omega
    simp [getLsbD_of_ge, hge]

variable (x : BitVec w) {shift : ℕ}

theorem field_shiftLeft (hs : shift ≤ offset) (hw : offset + n ≤ w) :
    field (x <<< shift) offset n = field x (offset - shift) n := by
  apply eq_of_getLsbD_eq
  intro i hi
  have hlt : offset + i < w := by omega
  have hge : ¬ offset + i < shift := by omega
  have hsub : offset + i - shift = offset - shift + i := by omega
  simp only [getLsbD_field, getLsbD_shiftLeft, hlt, hge, hsub, decide_true, decide_false,
    Bool.not_false, Bool.true_and]

theorem field_shiftLeft_low (h : offset + n ≤ shift) : field (x <<< shift) offset n = 0#n := by
  apply eq_of_getLsbD_eq
  intro i hi
  have hlt : offset + i < shift := by omega
  simp [getLsbD_field, hlt]

theorem field_shiftRight (shift offset n : ℕ) :
    field (x >>> shift) offset n = field x (shift + offset) n := by
  apply eq_of_getLsbD_eq
  intro i hi
  simp [getLsbD_field, Nat.add_assoc]

theorem mask_shiftRight (offset n : ℕ) :
    ((x &&& mask w offset n) >>> offset).setWidth n = field x offset n := by
  apply eq_of_getLsbD_eq
  intro i hi
  by_cases hw : offset + i < w
  · simp only [mask, getLsbD_field, getLsbD_setWidth, getLsbD_ushiftRight,
      getLsbD_and, getLsbD_place, Nat.add_sub_cancel_left, getLsbD_allOnes, hi, hw,
      Nat.le_add_right, decide_true, Bool.true_and, Bool.and_true]
  · have hge : w ≤ offset + i := by omega
    simp only [getLsbD_field, getLsbD_setWidth, getLsbD_ushiftRight,
      getLsbD_of_ge _ _ hge, Bool.and_false]

theorem mask_low (n : ℕ) : (x &&& mask w 0 n).setWidth n = field x 0 n := by
  rw [← mask_shiftRight, ushiftRight_zero]

theorem setWidth_eq_place (a : BitVec n) : a.setWidth w = place w a 0 := by
  rw [place, shiftLeft_zero]

end BitField
