import TokamakTitan.Library.Checked

/-! Programs that return errors, and that panic when an index or a slice is out of bounds. -/
namespace Slice

inductive Failure where
  | panic
  | error (message : String)
  deriving DecidableEq, Repr

abbrev Run (α : Type*) := Except Failure α

def failIf (p : Prop) [Decidable p] (message : String) : Run Unit :=
  if p then .error (.error message) else .ok ()

variable {α : Type*}

def slice (xs : List α) (i j : ℕ) : Run (List α) :=
  if i ≤ j ∧ j ≤ xs.length then .ok ((xs.drop i).take (j - i)) else .error .panic

def element (xs : List α) (i : ℕ) : Run α :=
  match xs[i]? with
  | some x => .ok x
  | none => .error .panic

theorem slice_eq {xs : List α} {i j : ℕ} (hle : i ≤ j) (hlength : j ≤ xs.length) :
    slice xs i j = .ok ((xs.drop i).take (j - i)) := if_pos ⟨hle, hlength⟩

theorem failIf_of {p : Prop} [Decidable p] (h : p) (message : String) :
    failIf p message = .error (.error message) := if_pos h

theorem failIf_of_not {p : Prop} [Decidable p] (h : ¬ p) (message : String) :
    failIf p message = .ok () := if_neg h

@[simp] theorem failIf_bind {β : Type} (p : Prop) [Decidable p] (message : String)
    (f : Unit → Run β) :
    (failIf p message >>= f) = if p then .error (.error message) else f () := by
  unfold failIf
  split
  · rfl
  · rfl

@[simp] theorem mapError_throw_bind {β ε δ : Type} (g : ε → δ) (e : ε) (f : Unit → Except ε β) :
    Except.mapError g (throw e >>= f) = .error (g e) := rfl

end Slice
