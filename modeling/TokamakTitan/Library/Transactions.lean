import TokamakTitan.Library.Checked

/-! Runs of transactions over a state. A transaction that reverts leaves no trace: neither in the
state nor in the log of accepted transitions. -/
namespace Transactions
open Checked List

structure Transition (σ τ ε : Type*) where
  pre : σ
  tx : τ
  post : σ
  events : List ε

universe u

variable {σ τ ε : Type u} (exec : σ → τ → Result (σ × List ε))

def step (s : σ) (t : τ) : σ :=
  match exec s t with
  | .ok r => r.1
  | .error _ => s

def stepTrace (s : σ) (t : τ) : List (Transition σ τ ε) :=
  match exec s t with
  | .ok r => [⟨s, t, r.1, r.2⟩]
  | .error _ => []

def run (s : σ) (ts : List τ) : σ := ts.foldl (step exec) s

def trace : σ → List τ → List (Transition σ τ ε)
  | _, [] => []
  | s, t :: ts => stepTrace exec s t ++ trace (step exec s t) ts

def states : σ → List τ → List σ
  | s, [] => [s]
  | s, t :: ts => s :: states (step exec s t) ts

variable (s : σ)

@[simp] theorem run_nil : run exec s [] = s := rfl

variable (ts us : List τ)

theorem run_append :
    run exec s (ts ++ us) = run exec (run exec s ts) us := foldl_append

theorem run_concat (ts : List τ) (t : τ) :
    run exec s (ts ++ [t]) = step exec (run exec s ts) t := by
  rw [run_append]
  rfl

theorem trace_append :
    trace exec s (ts ++ us) = trace exec s ts ++ trace exec (run exec s ts) us := by
  induction ts generalizing s with
  | nil => rfl
  | cons t ts ih =>
    rw [cons_append, trace, trace, ih, append_assoc]
    rfl

theorem trace_concat (ts : List τ) (t : τ) :
    trace exec s (ts ++ [t]) = trace exec s ts ++ stepTrace exec (run exec s ts) t := by
  rw [trace_append, trace, trace, append_nil]

theorem run_mem_states : run exec s ts ∈ states exec s (ts ++ us) := by
  induction ts generalizing s with
  | nil => cases us <;> simp [states]
  | cons t ts ih => exact mem_cons_of_mem _ (ih (step exec s t))

variable {exec}

variable {s : σ} {t : τ}

theorem step_ok {s' : σ} {es : List ε} (h : exec s t = .ok (s', es)) :
    step exec s t = s' ∧ stepTrace exec s t = [⟨s, t, s', es⟩] := by
  simp [step, stepTrace, h]

theorem step_error {e : Revert} (h : exec s t = .error e) :
    step exec s t = s ∧ stepTrace exec s t = [] := by
  simp [step, stepTrace, h]

theorem mem_trace {ts : List τ} {tr : Transition σ τ ε} (h : tr ∈ trace exec s ts) :
    exec tr.pre tr.tx = .ok (tr.post, tr.events) ∧
      ∃ us vs, ts = us ++ tr.tx :: vs ∧ tr.pre = run exec s us := by
  induction ts generalizing s with
  | nil => cases h
  | cons t ts ih =>
    rw [trace] at h
    rcases mem_append.mp h with h | h
    · cases hexec : exec s t with
      | error => rw [(step_error hexec).2] at h; cases h
      | ok =>
        rw [(step_ok hexec).2, mem_singleton] at h
        subst h
        exact ⟨hexec, [], ts, rfl, rfl⟩
    · obtain ⟨hok, us, vs, hts, hpre⟩ := ih h
      exact ⟨hok, t :: us, vs, by rw [hts]; rfl, hpre⟩

theorem sublist_trace (s : σ) (ts : List τ) : ((trace exec s ts).map (·.tx)).Sublist ts := by
  induction ts generalizing s with
  | nil => exact Sublist.slnil
  | cons t ts ih =>
    rw [trace, map_append]
    cases hexec : exec s t with
    | error =>
      rw [(step_error hexec).2]
      exact (ih _).cons t
    | ok =>
      rw [(step_ok hexec).2]
      exact (ih _).cons_cons t

theorem run_invariant {P : σ → List (Transition σ τ ε) → Prop} (hinit : P s [])
    (hstep : ∀ s s' log t es, P s log → exec s t = .ok (s', es) → P s' (log ++ [⟨s, t, s', es⟩]))
    (ts : List τ) : P (run exec s ts) (trace exec s ts) := by
  induction ts using reverseRecOn with
  | nil => exact hinit
  | append_singleton ts t ih =>
    rw [run_concat, trace_concat]
    cases hexec : exec (run exec s ts) t with
    | error =>
      rw [(step_error hexec).1, (step_error hexec).2, append_nil]
      exact ih
    | ok =>
      rw [(step_ok hexec).1, (step_ok hexec).2]
      exact hstep _ _ _ _ _ ih hexec

end Transactions
