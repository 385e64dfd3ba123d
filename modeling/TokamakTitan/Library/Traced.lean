import Mathlib.Data.List.Basic

/-! Programs over a state that can be observed, or survives, after each write. A program returns a
value or fails, leaves a state in both cases, and has a trace of the states after its writes.
`Meets` is a calculus of postconditions with an invariant of the trace. -/
namespace Traced

structure Outcome (σ ε α : Type) where
  trace : List σ
  state : σ
  result : Except ε α

structure Program (σ ε α : Type) where
  run : σ → Outcome σ ε α

variable {σ ε α β : Type}

/-- The second program starts where the first has ended, unless that one has failed. -/
def Outcome.andThen (o : Outcome σ ε α) (f : α → Program σ ε β) : Outcome σ ε β :=
  match o.result with
  | .ok a =>
    let rest := (f a).run o.state
    ⟨o.trace ++ rest.trace, rest.state, rest.result⟩
  | .error e => ⟨o.trace, o.state, .error e⟩

instance : Monad (Program σ ε) where
  pure a := ⟨fun s => ⟨[], s, .ok a⟩⟩
  bind m f := ⟨fun s => (m.run s).andThen f⟩

def get : Program σ ε σ := ⟨fun s => ⟨[], s, .ok s⟩⟩

def modify (f : σ → σ) : Program σ ε Unit := ⟨fun s => ⟨[f s], f s, .ok ()⟩⟩

def fail (e : ε) : Program σ ε α := ⟨fun s => ⟨[], s, .error e⟩⟩

variable (m : Program σ ε α)

/-- The result of a program as a value, so that a caller can look at its error. -/
def attempt : Program σ ε (Except ε α) :=
  ⟨fun s => ⟨(m.run s).trace, (m.run s).state, .ok (m.run s).result⟩⟩

def forEach (body : β → Program σ ε Unit) : List β → Program σ ε Unit
  | [] => pure ()
  | x :: xs => body x >>= fun _ => forEach body xs

def forRange (body : ℕ → Program σ ε Unit) (start : ℕ) : ℕ → Program σ ε Unit
  | 0 => pure ()
  | n + 1 => body start >>= fun _ => forRange body (start + 1) n

/-- A loop that the body ends by returning `true`; `false` means that it is still running. -/
def loop (body : Program σ ε Bool) : ℕ → Program σ ε Bool
  | 0 => pure false
  | n + 1 => body >>= fun done => if done then pure true else loop body n

@[simp] theorem run_pure (a : α) (s : σ) :
    (pure a : Program σ ε α).run s = ⟨[], s, .ok a⟩ := rfl

@[simp] theorem run_bind (f : α → Program σ ε β) (s : σ) :
    (m >>= f).run s = (m.run s).andThen f := rfl

@[simp] theorem run_get (s : σ) : (get : Program σ ε σ).run s = ⟨[], s, .ok s⟩ := rfl

@[simp] theorem run_modify (f : σ → σ) (s : σ) :
    (modify f : Program σ ε Unit).run s = ⟨[f s], f s, .ok ()⟩ := rfl

@[simp] theorem run_fail (e : ε) (s : σ) :
    (fail e : Program σ ε α).run s = ⟨[], s, .error e⟩ := rfl

@[simp] theorem run_attempt (s : σ) :
    (attempt m).run s = ⟨(m.run s).trace, (m.run s).state, .ok (m.run s).result⟩ := rfl

@[simp] theorem andThen_ok (t : List σ) (s : σ) (a : α) (f : α → Program σ ε β) :
    Outcome.andThen ⟨t, s, .ok a⟩ f =
      ⟨t ++ ((f a).run s).trace, ((f a).run s).state, ((f a).run s).result⟩ := rfl

@[simp] theorem andThen_error (t : List σ) (s : σ) (e : ε) (f : α → Program σ ε β) :
    Outcome.andThen ⟨t, s, .error e⟩ f = ⟨t, s, .error e⟩ := rfl

def Leads (s : σ) (a : α) (t : σ) : Prop :=
  ∃ trace, m.run s = ⟨trace, t, .ok a⟩

/-- The program from `s` comes to `t`, and what remains of it is `k`. -/
def Continues (s : σ) (k : Program σ ε α) (t : σ) : Prop :=
  ∃ trace, m.run s = ⟨trace ++ (k.run t).trace, (k.run t).state, (k.run t).result⟩

variable {f : α → Program σ ε β} {a : α}

namespace Continues

variable {t : σ} {m : Program σ ε α} {s : σ}

theorem of_eq (h : s = t) : Continues m s m t := ⟨[], by simp [h]⟩

theorem step {k : Program σ ε β} {u : σ} (hm : Leads m s a t) (hf : Continues (f a) t k u) :
    Continues (m >>= f) s k u := by
  obtain ⟨trace, hm⟩ := hm
  obtain ⟨trace', hf⟩ := hf
  exact ⟨trace ++ trace', by simp [hm, hf]⟩

variable {k : Program σ ε α}

theorem trans {m l : Program σ ε α} {u : σ} (h : Continues m s k t) (h' : Continues k t l u) :
    Continues m s l u := by
  obtain ⟨trace, h⟩ := h
  obtain ⟨trace', h'⟩ := h'
  exact ⟨trace ++ trace', by simp [h, h']⟩

theorem state_eq (h : Continues m s k t) : (m.run s).state = (k.run t).state := by
  obtain ⟨trace, h⟩ := h
  rw [h]

theorem result_eq (h : Continues m s k t) : (m.run s).result = (k.run t).result := by
  obtain ⟨trace, h⟩ := h
  rw [h]

end Continues

/-- From `s`, the invariant holds after every write; a value is returned with `A`, an error is
raised with `E`. -/
def Meets (Inv : σ → Prop) (m : Program σ ε α) (s : σ) (A : α → σ → Prop) (E : ε → σ → Prop) :
    Prop :=
  (∀ t ∈ (m.run s).trace, Inv t) ∧
    match (m.run s).result with
    | .ok a => A a (m.run s).state
    | .error e => E e (m.run s).state

variable {Inv : σ → Prop} {m : Program σ ε α} {s : σ} {A : α → σ → Prop} {E : ε → σ → Prop}

namespace Meets

theorem of_ok (h : Meets Inv m s A E) (ha : (m.run s).result = .ok a) : A a (m.run s).state := by
  have h2 := h.2
  rw [ha] at h2
  exact h2

theorem of_error (h : Meets Inv m s A E) {e : ε} (he : (m.run s).result = .error e) :
    E e (m.run s).state := by
  have h2 := h.2
  rw [he] at h2
  exact h2

variable {E' : ε → σ → Prop}

theorem mono {Inv' : σ → Prop} {A' : α → σ → Prop} (h : Meets Inv m s A E)
    (hInv : ∀ t, Inv t → Inv' t) (hA : ∀ a t, A a t → A' a t) (hE : ∀ e t, E e t → E' e t) :
    Meets Inv' m s A' E' := by
  refine ⟨fun t ht => hInv t (h.1 t ht), ?_⟩
  have h2 := h.2
  cases hr : (m.run s).result with
  | ok => rw [hr] at h2; exact hA _ _ h2
  | error => rw [hr] at h2; exact hE _ _ h2

theorem post {A' : α → σ → Prop} (h : Meets Inv m s A E) (hA : ∀ a t, A a t → A' a t) :
    Meets Inv m s A' E :=
  h.mono (fun _ => id) hA fun _ _ => id

theorem pure (h : A a s) : Meets Inv (Pure.pure a) s A E := ⟨by simp, h⟩

theorem fail {e : ε} (h : E e s) : Meets Inv (Traced.fail e) s A E := ⟨by simp, h⟩

theorem modify {f : σ → σ} {A : Unit → σ → Prop} (hi : Inv (f s)) (h : A () (f s)) :
    Meets Inv (Traced.modify f) s A E := ⟨by simpa using hi, h⟩

theorem bind {B : α → σ → Prop} {A : β → σ → Prop} (hm : Meets Inv m s B E)
    (hf : ∀ a t, B a t → Meets Inv (f a) t A E) : Meets Inv (m >>= f) s A E := by
  obtain ⟨htrace, hres⟩ := hm
  cases hr : (m.run s).result with
  | error =>
    rw [hr] at hres
    constructor
    case left => simpa [Outcome.andThen, hr] using htrace
    case right => simpa [Outcome.andThen, hr] using hres
  | ok a =>
    rw [hr] at hres
    obtain ⟨htrace', hres'⟩ := hf a _ hres
    constructor
    case left =>
      simp only [run_bind, Outcome.andThen, hr, List.mem_append]
      rintro t (ht | ht)
      · exact htrace t ht
      · exact htrace' t ht
    case right => simpa [Outcome.andThen, hr] using hres'

theorem get_bind {f : σ → Program σ ε α} (h : Meets Inv (f s) s A E) :
    Meets Inv (Traced.get >>= f) s A E :=
  bind (B := fun a t => a = s ∧ t = s) ⟨by simp, rfl, rfl⟩ fun _ _ ht => by rwa [ht.1, ht.2]

theorem attempt (h : Meets Inv m s A E) :
    Meets Inv (Traced.attempt m) s
      (fun r t => match r with | .ok a => A a t | .error e => E e t) E' := h

theorem forEach {body : β → Program σ ε Unit} {J : List β → σ → Prop} {xs : List β}
    (hbody : ∀ x rest t, J (x :: rest) t → Meets Inv (body x) t (fun _ => J rest) E)
    (h : J xs s) : Meets Inv (Traced.forEach body xs) s (fun _ => J []) E := by
  induction xs generalizing s with
  | nil => exact pure h
  | cons x rest ih => exact bind (hbody x rest s h) fun _ t ht => ih ht

theorem forRange {body : ℕ → Program σ ε Unit} {J : ℕ → σ → Prop} {start n : ℕ}
    (hbody : ∀ i t, J i t → Meets Inv (body i) t (fun _ => J (i + 1)) E)
    (h : J start s) : Meets Inv (Traced.forRange body start n) s (fun _ => J (start + n)) E := by
  induction n generalizing start s with
  | zero => exact pure h
  | succ n ih =>
    have hnext : start + (n + 1) = start + 1 + n := by omega
    rw [hnext]
    exact bind (hbody start s h) fun _ t ht => ih ht

theorem loop {body : Program σ ε Bool} {J : σ → Prop} {A : σ → Prop} {n : ℕ}
    (hbody : ∀ t, J t → Meets Inv body t (fun done u => if done then A u else J u) E)
    (h : J s) : Meets Inv (Traced.loop body n) s (fun done u => if done then A u else J u) E := by
  induction n generalizing s with
  | zero => exact pure h
  | succ n ih =>
    refine bind (hbody s h) fun done t ht => ?_
    cases done with
    | true => exact pure ht
    | false => exact ih ht

end Meets
end Traced
