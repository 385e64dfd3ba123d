import Mathlib.Data.List.Infix
import Mathlib.Logic.Relator

/-! Walks along a relation that may depend on the number of the step. -/
namespace Sequence

variable {α : Type*}

/-- The places of `xs` are reached from `a` one after the other, the first one by step `i`. -/
inductive Walk (step : ℕ → α → α → Prop) : ℕ → α → List α → Prop
  | nil {i : ℕ} {a : α} : Walk step i a []
  | cons {i : ℕ} {a b : α} {xs : List α} (hstep : step i a b) (hrest : Walk step (i + 1) b xs) :
      Walk step i a (b :: xs)

variable {step : ℕ → α → α → Prop} {i : ℕ} {a b : α} {xs ys : List α}

theorem Walk.snoc (h : Walk step i a xs) (hstep : step (i + xs.length) (xs.getLast?.getD a) b) :
    Walk step i a (xs ++ [b]) := by
  induction h with
  | nil => exact .cons hstep .nil
  | @cons i a c xs hfirst _ ih =>
    refine .cons hfirst (ih ?_)
    rw [List.length_cons, List.getLast?_cons, Option.getD_some] at hstep
    rwa [Nat.add_assoc, Nat.add_comm 1]

theorem Walk.comparable (hunique : ∀ i, Relator.RightUnique (step i)) (hxs : Walk step i a xs)
    (hys : Walk step i a ys) : xs <+: ys ∨ ys <+: xs := by
  induction hxs generalizing ys with
  | nil => exact .inl List.nil_prefix
  | cons hstep _ ih =>
    cases hys with
    | nil => exact .inr List.nil_prefix
    | cons hstep' hrest =>
      cases hunique _ hstep hstep'
      rcases ih hrest with h | h
      · exact .inl (List.prefix_cons_inj _ |>.mpr h)
      · exact .inr (List.prefix_cons_inj _ |>.mpr h)

end Sequence
