import Mathlib.Data.List.Sort
import Mathlib.Data.List.Range

/-! Sorting by a numeric key, with an algorithm that need not be stable. The result is determined by
the keys exactly if they are strictly increasing in some order of the list. -/
namespace KeySort
open List

structure Sorter (α : Type*) where
  sort : (α → ℕ) → List α → List α
  perm : ∀ key l, (sort key l).Perm l
  sorted : ∀ key l, (sort key l).Pairwise fun a b => key a ≤ key b

variable {α : Type*} {key : α → ℕ} {l L : List α}

def insertion (α : Type*) : Sorter α where
  sort key l := l.insertionSort fun a b => key a ≤ key b
  perm _ l := List.perm_insertionSort _ l
  sorted key l :=
    have : Std.Total fun a b : α => key a ≤ key b := ⟨fun a b => Nat.le_total (key a) (key b)⟩
    have : IsTrans α fun a b => key a ≤ key b := ⟨fun _ _ _ => Nat.le_trans⟩
    List.pairwise_insertionSort _ l

theorem Sorter.sort_eq (s : Sorter α) (h : l.Perm L) (hL : L.Pairwise fun a b => key a < key b) :
    s.sort key l = L := by
  have hle : L.Pairwise fun a b => key a ≤ key b := hL.imp fun h => h.le
  have hinj : ∀ a ∈ L, ∀ b ∈ L, key a = key b → a = b := by
    apply inj_on_of_nodup_map
    exact pairwise_map.mpr (hL.imp fun h => h.ne)
  apply Perm.eq_of_pairwise _ (s.sorted key l) hle ((s.perm key l).trans h)
  intro a b ha hb hab hba
  exact hinj a (((s.perm key l).trans h).mem_iff.mp ha) b hb (Nat.le_antisymm hab hba)

theorem not_sublist_swap {a b : α} (hnd : L.Nodup) (h : [a, b].Sublist L) : ¬ [b, a].Sublist L := by
  intro h'
  induction L with
  | nil => cases h
  | cons x L ih =>
    obtain ⟨hx, hnd⟩ := nodup_cons.mp hnd
    cases h with
    | cons _ h =>
      cases h' with
      | cons _ h' => exact ih hnd h h'
      | cons_cons => exact hx (h.subset (by simp))
    | cons_cons _ h =>
      cases h' with
      | cons _ h' => exact hx (h'.subset (by simp))
      | cons_cons => exact hx (singleton_sublist.mp h)

theorem pairwise_lt_of_sort_eq (hnd : L.Nodup)
    (h : ∀ s : Sorter α, ∀ l : List α, l.Perm L → s.sort key l = L) :
    L.Pairwise fun a b => key a < key b := by
  have hle : L.Pairwise fun a b => key a ≤ key b := by
    have hs := (insertion α).sorted key L
    rwa [h (insertion α) L (Perm.refl L)] at hs
  rw [pairwise_iff_forall_sublist] at hle ⊢
  intro a b hab
  apply lt_of_le_of_ne (hle hab)
  intro heq
  -- A stable algorithm keeps the two in the order of the reversed list.
  have hrev : [b, a].Sublist L.reverse := reverse_sublist.mpr hab
  have hba := pair_sublist_insertionSort (r := fun a b => key a ≤ key b) heq.ge hrev
  rw [show L.reverse.insertionSort (fun a b => key a ≤ key b) = L from
    h (insertion α) _ L.reverse_perm] at hba
  exact not_sublist_swap hnd hab hba

theorem eq_range_of_pairwise {xs : List ℕ} (hlt : ∀ x ∈ xs, x < xs.length)
    (h : xs.Pairwise (· < ·)) : xs = range xs.length := by
  have hsub : xs ⊆ range xs.length := fun x hx => mem_range.mpr (hlt x hx)
  have hnd : xs.Nodup := h.imp Nat.ne_of_lt
  have hperm : xs.Perm (range xs.length) :=
    (subperm_of_subset hnd hsub).perm_of_length_le (by rw [length_range])
  apply Perm.eq_of_pairwise _ h pairwise_lt_range hperm
  intro a b _ _ hab hba
  omega

end KeySort
