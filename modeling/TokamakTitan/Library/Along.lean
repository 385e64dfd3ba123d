import Mathlib.Logic.Basic

/-! What holds at every step of a run over a list of events. -/
namespace Runs

variable {σ ε : Type*} (step : σ → ε → σ)

/-- Every event of the run, with the state in which it happens, satisfies `P`. -/
def Along (P : σ → ε → Prop) : σ → List ε → Prop
  | _, [] => True
  | s, e :: es => P s e ∧ Along P (step s e) es

variable {step} {P Q : σ → ε → Prop} {s : σ} {es : List ε}

theorem along_of_invariant (I : σ → Prop)
    (hstep : ∀ s e, I s → P s e → Q s e ∧ I (step s e)) (hs : I s) (h : Along step P s es) :
    Along step Q s es := by
  induction es generalizing s with
  | nil => trivial
  | cons e es ih =>
    obtain ⟨he, hrest⟩ := h
    obtain ⟨hq, hi⟩ := hstep s e hs he
    exact ⟨hq, ih hi hrest⟩

theorem invariant_of_along (I : σ → Prop) (hstep : ∀ s e, I s → P s e → I (step s e)) (hs : I s)
    (h : Along step P s es) : I (es.foldl step s) := by
  induction es generalizing s with
  | nil => exact hs
  | cons e es ih => exact ih (hstep s e hs h.1) h.2

theorem along_of_forall (h : ∀ e ∈ es, ∀ s, P s e) : Along step P s es := by
  induction es generalizing s with
  | nil => trivial
  | cons e es ih =>
    exact ⟨h e List.mem_cons_self s, ih fun e' he' => h e' (List.mem_cons_of_mem _ he')⟩

theorem along_and (hp : Along step P s es) (hq : Along step Q s es) :
    Along step (fun s e => P s e ∧ Q s e) s es := by
  induction es generalizing s with
  | nil => trivial
  | cons e es ih => exact ⟨⟨hp.1, hq.1⟩, ih hp.2 hq.2⟩

end Runs
