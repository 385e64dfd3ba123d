import Mathlib.Data.List.Nodup
import Mathlib.Data.List.Range

/-! Stores that are filled from zero upwards. `Holds` says that a store has a value exactly below a
bound and that the values are right; writing a block that begins within the bound keeps it.
`Abutting` describes the blocks themselves. -/
namespace InitialSegment
open List

variable {α : Type*}

structure Holds (R : ℕ → α → Prop) (n : ℕ) (f : ℕ → Option α) : Prop where
  isSome_iff : ∀ i, (f i).isSome ↔ i < n
  right : ∀ i a, f i = some a → R i a

def put (entry : ℕ × α) (f : ℕ → Option α) : ℕ → Option α :=
  Function.update f entry.1 (some entry.2)

def putAll : List (ℕ × α) → (ℕ → Option α) → ℕ → Option α
  | [], f => f
  | entry :: rest, f => putAll rest (put entry f)

variable {R : ℕ → α → Prop} {n a : ℕ} {f : ℕ → Option α}

theorem holds_empty : Holds R 0 fun _ => none := ⟨by simp, by simp⟩

namespace Holds

variable (h : Holds R n f)
include h

theorem exists_of_lt {i : ℕ} (hi : i < n) : ∃ v, f i = some v :=
  Option.isSome_iff_exists.mp ((h.isSome_iff i).mpr hi)

theorem le_iff : a ≤ n ↔ ¬(0 < a ∧ (f (a - 1)).isNone) := by
  have hprev := h.isSome_iff (a - 1)
  have hnone : (f (a - 1)).isNone ↔ ¬a - 1 < n := by simp [← hprev]
  rw [hnone]
  omega

theorem put {v : α} (hv : R a v) (ha : a ≤ n) : Holds R (max n (a + 1)) (put (a, v) f) := by
  constructor
  case isSome_iff =>
    intro i
    by_cases hi : i = a
    · subst hi
      simp only [InitialSegment.put, Function.update_self, Option.isSome_some, true_iff]
      omega
    · have hother := h.isSome_iff i
      simp only [InitialSegment.put, Function.update_of_ne hi, hother]
      omega
  case right =>
    intro i w hw
    by_cases hi : i = a
    · subst hi
      simp only [InitialSegment.put, Function.update_self, Option.some.injEq] at hw
      rwa [← hw]
    · rw [InitialSegment.put, Function.update_of_ne hi] at hw
      exact h.right i w hw

theorem putAll {entries : List (ℕ × α)} (hindex : entries.map Prod.fst = range' a entries.length)
    (hright : ∀ entry ∈ entries, R entry.1 entry.2) (ha : a ≤ n) :
    Holds R (max n (a + entries.length)) (putAll entries f) := by
  induction entries generalizing f n a with
  | nil => simpa [InitialSegment.putAll, ha] using h
  | cons entry rest ih =>
    obtain ⟨i, v⟩ := entry
    simp only [map_cons, length_cons, range'_succ, cons.injEq] at hindex
    obtain ⟨rfl, hindex⟩ := hindex
    have hput := h.put (hright (i, v) mem_cons_self) ha
    have hrest := ih hput hindex (fun e he => hright e (mem_cons_of_mem _ he)) (le_max_right _ _)
    have hbound : max n (i + (rest.length + 1)) = max (max n (i + 1)) (i + 1 + rest.length) := by
      omega
    simp only [length_cons, hbound]
    exact hrest

end Holds

section Numbered

variable {β : Type*} {index : β → ℕ} {entries : List β} {x y : β}

variable (h : entries.map index = List.range' a entries.length)
include h

theorem index_mem_of_numbered (hx : x ∈ entries) : a ≤ index x ∧ index x < a + entries.length := by
  have hmem : index x ∈ entries.map index := mem_map_of_mem hx
  rw [h] at hmem
  exact mem_range'_1.mp hmem

theorem eq_of_numbered (hx : x ∈ entries) (hy : y ∈ entries) (hxy : index x = index y) : x = y := by
  have hnodup : (entries.map index).Nodup := by
    rw [h]
    exact nodup_range'
  exact inj_on_of_nodup_map hnodup hx hy hxy

end Numbered

/-- Blocks, given by where they begin and how long they are, from zero and without a space
between them. -/
structure Abutting (blocks : List (ℕ × ℕ)) : Prop where
  first : ∀ b, blocks[0]? = some b → b.1 = 0
  next : ∀ k b b', blocks[k]? = some b → blocks[k + 1]? = some b' → b'.1 = b.1 + b.2

namespace Abutting

variable {blocks : List (ℕ × ℕ)}

variable {b b' : ℕ × ℕ} {k : ℕ}

theorem le_of_lt (h : Abutting blocks) {j : ℕ} (hb : blocks[j]? = some b)
    (hb' : blocks[k]? = some b') (hjk : j < k) : b.1 + b.2 ≤ b'.1 := by
  induction k generalizing b' with
  | zero => omega
  | succ k ih =>
    have hk : k + 1 < blocks.length := (List.getElem?_eq_some_iff.mp hb').1
    have hlast : blocks[k]? = some blocks[k] := List.getElem?_eq_getElem (by omega)
    have hnext := h.next k _ b' hlast hb'
    rcases Nat.lt_succ_iff_lt_or_eq.mp hjk with hlt | rfl
    · have := ih hlast hlt
      omega
    · rw [hb, Option.some.injEq] at hlast
      rw [hnext, ← hlast]

theorem eq_of_mem (h : Abutting blocks) {j i : ℕ} (hb : blocks[j]? = some b)
    (hb' : blocks[k]? = some b') (hi : b.1 ≤ i ∧ i < b.1 + b.2) (hi' : b'.1 ≤ i ∧ i < b'.1 + b'.2) :
    j = k := by
  rcases lt_trichotomy j k with hlt | heq | hgt
  · have := h.le_of_lt hb hb' hlt
    omega
  · exact heq
  · have := h.le_of_lt hb' hb hgt
    omega

theorem start_le {xs : List α} {f : α → ℕ × ℕ} (h : Abutting (xs.map f)) {n : ℕ} {x : α}
    (hx : xs[k]? = some x)
    (hprev : ∀ j y, k = j + 1 → xs[j]? = some y → (f y).1 + (f y).2 ≤ n) : (f x).1 ≤ n := by
  cases k with
  | zero =>
    have := h.first (f x) (by simp [hx])
    omega
  | succ j =>
    have hk : j + 1 < xs.length := (List.getElem?_eq_some_iff.mp hx).1
    have hlast : xs[j]? = some xs[j] := List.getElem?_eq_getElem (by omega)
    rw [h.next j (f xs[j]) (f x) (by simp [hlast]) (by simp [hx])]
    exact hprev j _ rfl hlast

end Abutting
end InitialSegment
