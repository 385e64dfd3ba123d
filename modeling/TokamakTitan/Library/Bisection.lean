import Mathlib.Data.Nat.Notation

/-! A search by bisection whose probes may fail. Both bounds move to the probed position, so that it
ends only because the position looked for lies below the upper bound. -/
namespace Bisection

variable {ε α : Type*}

inductive Side where
  | high
  | low
  | here
  deriving DecidableEq

def search (probe : ℕ → Except ε (Side × α)) : ℕ → ℕ → ℕ → α → Option (Except ε α)
  | 0, lo, hi, last => if lo < hi then none else some (.ok last)
  | fuel + 1, lo, hi, last =>
    if lo < hi then
      match probe ((lo + hi) / 2) with
      | .error e => some (.error e)
      | .ok (.high, x) => search probe fuel lo ((lo + hi) / 2) x
      | .ok (.low, x) => search probe fuel ((lo + hi) / 2) hi x
      | .ok (.here, x) => some (.ok x)
    else some (.ok last)

def sideOf (target k : ℕ) : Side :=
  if target < k then .high else if k < target then .low else .here

def probes (target : ℕ) : ℕ → ℕ → ℕ → List ℕ
  | 0, _, _ => []
  | fuel + 1, lo, hi =>
    if lo < hi then
      (lo + hi) / 2 :: match sideOf target ((lo + hi) / 2) with
        | .high => probes target fuel lo ((lo + hi) / 2)
        | .low => probes target fuel ((lo + hi) / 2) hi
        | .here => []
    else []

structure Between (target fuel lo hi : ℕ) : Prop where
  low : lo ≤ target
  high : target < hi
  fuel : hi - lo ≤ fuel

variable {target fuel lo hi : ℕ} {probe : ℕ → Except ε (Side × α)} {last : α}

theorem Between.pos (h : Between target fuel lo hi) : ∃ n, fuel = n + 1 := by
  have := h.low
  have := h.high
  have := h.fuel
  exact ⟨fuel - 1, by omega⟩

theorem Between.high_half (h : Between target (fuel + 1) lo hi)
    (hside : sideOf target ((lo + hi) / 2) = .high) : Between target fuel lo ((lo + hi) / 2) := by
  have hlow := h.low
  have hhigh := h.high
  have hfuel := h.fuel
  unfold sideOf at hside
  split at hside
  next hlt => exact ⟨hlow, hlt, by omega⟩
  next => split at hside <;> cases hside

theorem Between.low_half (h : Between target (fuel + 1) lo hi)
    (hside : sideOf target ((lo + hi) / 2) = .low) : Between target fuel ((lo + hi) / 2) hi := by
  have hlow := h.low
  have hhigh := h.high
  have hfuel := h.fuel
  unfold sideOf at hside
  split at hside
  next => cases hside
  next =>
    split at hside
    next hlt => exact ⟨by omega, hhigh, by omega⟩
    next => cases hside

theorem eq_of_sideOf_here {k : ℕ} (h : sideOf target k = .here) : k = target := by
  unfold sideOf at h
  split at h
  next => cases h
  next =>
    split at h
    next => cases h
    next => omega

theorem search_eq (value : ℕ → α) (h : Between target fuel lo hi)
    (hprobe : ∀ k ∈ probes target fuel lo hi, probe k = .ok (sideOf target k, value k)) :
    search probe fuel lo hi last = some (.ok (value target)) := by
  induction fuel generalizing lo hi last with
  | zero =>
    obtain ⟨n, hn⟩ := h.pos
    cases hn
  | succ fuel ih =>
    have hlt : lo < hi := Nat.lt_of_le_of_lt h.low h.high
    rw [probes, if_pos hlt, List.forall_mem_cons] at hprobe
    rw [search, if_pos hlt, hprobe.1]
    cases hside : sideOf target ((lo + hi) / 2) with
    | high =>
      rw [hside] at hprobe
      exact ih (h.high_half hside) hprobe.2
    | low =>
      rw [hside] at hprobe
      exact ih (h.low_half hside) hprobe.2
    | here =>
      rw [eq_of_sideOf_here hside]

theorem probe_of_search_eq (value : ℕ → α) (h : Between target fuel lo hi)
    (hprobe : ∀ k < hi, (∃ e, probe k = .error e) ∨ probe k = .ok (sideOf target k, value k))
    {x : α} (hsearch : search probe fuel lo hi last = some (.ok x)) :
    ∀ k ∈ probes target fuel lo hi, probe k = .ok (sideOf target k, value k) := by
  induction fuel generalizing lo hi last with
  | zero =>
    obtain ⟨n, hn⟩ := h.pos
    cases hn
  | succ fuel ih =>
    have hlt : lo < hi := Nat.lt_of_le_of_lt h.low h.high
    have hmid : (lo + hi) / 2 < hi := by omega
    rw [search, if_pos hlt] at hsearch
    rcases hprobe _ hmid with ⟨e, he⟩ | hok
    · rw [he] at hsearch
      cases hsearch
    · rw [probes, if_pos hlt, List.forall_mem_cons]
      refine ⟨hok, ?_⟩
      rw [hok] at hsearch
      cases hside : sideOf target ((lo + hi) / 2) with
      | high =>
        rw [hside] at hsearch
        exact ih (h.high_half hside) (fun k hk => hprobe k (Nat.lt_trans hk hmid)) hsearch
      | low =>
        rw [hside] at hsearch
        exact ih (h.low_half hside) hprobe hsearch
      | here => simp

theorem probes_eq {fuel' : ℕ} (h : Between target fuel lo hi) (h' : Between target fuel' lo hi) :
    probes target fuel lo hi = probes target fuel' lo hi := by
  induction fuel generalizing fuel' lo hi with
  | zero =>
    obtain ⟨n, hn⟩ := h.pos
    cases hn
  | succ fuel ih =>
    obtain ⟨n, rfl⟩ := h'.pos
    rw [probes, probes]
    cases hside : sideOf target ((lo + hi) / 2) with
    | high => rw [ih (h.high_half hside) (h'.high_half hside)]
    | low => rw [ih (h.low_half hside) (h'.low_half hside)]
    | here => rfl

/-- The search for the first position that is not below what is looked for. -/
def lowerBound (below : ℕ → Except ε Bool) : ℕ → ℕ → ℕ → Option (Except ε ℕ)
  | 0, lo, hi => if lo = hi then some (.ok lo) else none
  | fuel + 1, lo, hi =>
    if lo = hi then some (.ok lo)
    else match below ((lo + hi) / 2) with
      | .error e => some (.error e)
      | .ok true => lowerBound below fuel ((lo + hi) / 2 + 1) hi
      | .ok false => lowerBound below fuel lo ((lo + hi) / 2)

/-- The positions that the search for `target` looks at. -/
def lowerBoundProbes (target : ℕ) : ℕ → ℕ → ℕ → List ℕ
  | 0, _, _ => []
  | fuel + 1, lo, hi =>
    if lo = hi then []
    else (lo + hi) / 2 :: if (lo + hi) / 2 < target then
        lowerBoundProbes target fuel ((lo + hi) / 2 + 1) hi
      else lowerBoundProbes target fuel lo ((lo + hi) / 2)

theorem lt_of_mem_lowerBoundProbes {k : ℕ} (hle : lo ≤ hi)
    (hk : k ∈ lowerBoundProbes target fuel lo hi) : k < hi := by
  induction fuel generalizing lo hi with
  | zero => cases hk
  | succ fuel ih =>
    rw [lowerBoundProbes] at hk
    split at hk
    next => cases hk
    next hne =>
      rcases List.mem_cons.mp hk with rfl | hrest
      · omega
      · split at hrest
        next => exact ih (by omega) hrest
        next => exact Nat.lt_of_lt_of_le (ih (by omega) hrest) (by omega)

/-- The search succeeds exactly when none of its probes fails, and then finds what it looks for. -/
theorem lowerBound_eq_iff {below : ℕ → Except ε Bool} (hlow : lo ≤ target) (hhigh : target ≤ hi)
    (hfuel : hi - lo ≤ fuel)
    (hbelow : ∀ k < hi, (∃ e, below k = .error e) ∨ below k = .ok (decide (k < target))) {x : ℕ} :
    lowerBound below fuel lo hi = some (.ok x) ↔
      x = target ∧ ∀ k ∈ lowerBoundProbes target fuel lo hi,
        below k = .ok (decide (k < target)) := by
  induction fuel generalizing lo hi with
  | zero =>
    obtain rfl : lo = hi := by omega
    rw [lowerBound, if_pos rfl, lowerBoundProbes]
    simp only [Option.some.injEq, Except.ok.injEq, List.not_mem_nil, false_implies, implies_true,
      and_true]
    omega
  | succ fuel ih =>
    rw [lowerBound, lowerBoundProbes]
    by_cases heq : lo = hi
    · rw [if_pos heq, if_pos heq]
      simp only [Option.some.injEq, Except.ok.injEq, List.not_mem_nil, false_implies,
        implies_true, and_true]
      omega
    · rw [if_neg heq, if_neg heq, List.forall_mem_cons]
      rcases hbelow ((lo + hi) / 2) (by omega) with ⟨e, he⟩ | hok
      · rw [he]
        simp
      · rw [hok, and_iff_right rfl]
        by_cases hlt : (lo + hi) / 2 < target
        · rw [decide_eq_true hlt, if_pos hlt]
          exact ih (by omega) hhigh (by omega) hbelow
        · rw [decide_eq_false hlt, if_neg hlt]
          exact ih hlow (by omega) (by omega) fun k hk => hbelow k (by omega)

end Bisection
