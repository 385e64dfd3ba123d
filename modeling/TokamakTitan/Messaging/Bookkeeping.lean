import TokamakTitan.Messaging.L1Messenger

/-! What the mappings of the L1 messengers record about the target calls, in every state that
calls to them reach. -/
namespace Messaging
open Checked Abi Rollup

/-- How often a message of hash `h` was relayed to a target that succeeded, or that failed. -/
def outcomes {H : Type} [DecidableEq H] (hash : Hashing H) (h : H) (success : Bool)
    (executed : List Execution) : ℕ :=
  executed.countP fun e => decide (xDomainCalldataHash hash e.message = h ∧ e.success = success)

theorem outcomes_concat {H : Type} [DecidableEq H] {hash : Hashing H} (h : H) (success : Bool)
    (executed : List Execution) (e : Execution) :
    outcomes hash h success (executed ++ [e]) = outcomes hash h success executed +
      if xDomainCalldataHash hash e.message = h ∧ e.success = success then 1 else 0 := by
  simp [outcomes, List.countP_append, List.countP_singleton]

def successes (executed : List Execution) (m : CrossDomainMessage) : ℕ :=
  executed.countP fun e => decide (e = ⟨m, true⟩)

theorem successes_le_outcomes {H : Type} [DecidableEq H] (hash : Hashing H)
    (m : CrossDomainMessage) (executed : List Execution) :
    successes executed m ≤ outcomes hash (xDomainCalldataHash hash m) true executed := by
  apply List.countP_mono_left
  intro e _ he
  simp only [decide_eq_true_eq] at he
  simp [he]

namespace L1

section Bookkeeping

variable {H : Type} [DecidableEq H] {hash : Hashing H} {variant : Variant H}
  {Trusted : Verifiers → Prop}

/-- The flags of a message say how its target calls ended. -/
structure World.Bookkeeping (hash : Hashing H) (w : World H) : Prop where
  successfulMessages : ∀ h, w.successfulMessages h = true ↔ outcomes hash h true w.executed = 1
  failedMessages : ∀ h, w.failedMessages h = true ↔ 0 < outcomes hash h false w.executed
  xDomainMsgSender : w.xDomainMsgSender = DEFAULT_XDOMAIN_SENDER

/-- The messages marked as successful succeeded once each, and no others. -/
structure World.Recorded (hash : Hashing H) (w : World H) : Prop where
  successfulMessages : ∀ h, w.successfulMessages h = true ↔ outcomes hash h true w.executed = 1
  once : ∀ h, outcomes hash h true w.executed ≤ 1
  xDomainMsgSender : w.xDomainMsgSender = DEFAULT_XDOMAIN_SENDER

theorem World.Recorded.init : (World.init : World H).Recorded hash where
  successfulMessages := by simp [World.init, outcomes]
  once := by simp [World.init, outcomes]
  xDomainMsgSender := rfl

theorem World.Recorded.sameCore {w u : World H} (hw : w.Recorded hash) (h : SameCore w u) :
    u.Recorded hash := by
  obtain ⟨_, _, rfl⟩ := h
  exact {hw with}

variable {env : Environment} {m : CrossDomainMessage} {proof : L2MessageInclusionProof}
  {success : Bool} {w u : World H}

theorem Relayed.outcomes_eq_zero (h : Relayed hash variant env m proof success w u)
    (hw : w.Recorded hash) : outcomes hash (xDomainCalldataHash hash m) true w.executed = 0 := by
  have hle := hw.once (xDomainCalldataHash hash m)
  have hne : outcomes hash (xDomainCalldataHash hash m) true w.executed ≠ 1 := by
    intro hone
    have htrue := (hw.successfulMessages _).mpr hone
    rw [h.fresh] at htrue
    cases htrue
  omega

theorem Relayed.recorded (h : Relayed hash variant env m proof success w u)
    (hw : w.Recorded hash) : u.Recorded hash := by
  have hzero := h.outcomes_eq_zero hw
  have hstep : ∀ k, (u.successfulMessages k = true ↔ outcomes hash k true u.executed = 1) ∧
      outcomes hash k true u.executed ≤ 1 := by
    intro k
    rw [h.executed, h.successfulMessages, outcomes_concat]
    cases success with
    | false => simpa using ⟨hw.successfulMessages k, hw.once k⟩
    | true =>
      by_cases hk : xDomainCalldataHash hash m = k
      · subst hk
        simp [hzero]
      · have hk' : k ≠ xDomainCalldataHash hash m := fun heq => hk heq.symm
        simpa [hk, hk'] using ⟨hw.successfulMessages k, hw.once k⟩
  exact ⟨fun k => (hstep k).1, fun k => (hstep k).2, h.xDomainMsgSender⟩

theorem Steps.recorded (h : Steps hash variant Trusted World.init w) : w.Recorded hash := by
  have hinv := h.invariant (P := fun w => w.Recorded hash) (fun v x hcore hv => hv.sameCore hcore)
    (fun env v x m proof success _ hrelayed hv => hrelayed.recorded hv) rfl World.Recorded.init
  exact hinv.1

theorem Steps.failedMessages_standard (h : Steps hash standard Trusted World.init w) (k : H) :
    w.failedMessages k = true ↔ 0 < outcomes hash k false w.executed := by
  have hinv := h.invariant
    (P := fun w => ∀ k, w.failedMessages k = true ↔ 0 < outcomes hash k false w.executed)
    ?_ ?_ rfl (by simp [World.init, outcomes])
  · exact hinv.1 k
  · rintro v _ ⟨_, _, rfl⟩ hv
    exact hv
  · intro env v x m proof success _ hrelayed hv k
    rw [hrelayed.failedMessages, hrelayed.executed, outcomes_concat]
    cases success with
    | true => simpa using hv k
    | false =>
      by_cases hk : xDomainCalldataHash hash m = k
      · simp [standard, recordFailure, hk]
      · have hk' : k ≠ xDomainCalldataHash hash m := fun heq => hk heq.symm
        simpa [standard, recordFailure, hk, hk'] using hv k

theorem Steps.failedMessages_fast (h : Steps hash fast Trusted World.init w) (k : H) :
    w.failedMessages k = false := by
  have hinv := h.invariant (P := fun w => ∀ k, w.failedMessages k = false) ?_ ?_ rfl (fun _ => rfl)
  · exact hinv.1 k
  · rintro v _ ⟨_, _, rfl⟩ hv
    exact hv
  · intro env v x m proof success _ hrelayed hv k
    rw [hrelayed.failedMessages]
    cases success <;> exact hv k

/-- The bookkeeping of the standard messenger is right in every run. -/
theorem Steps.bookkeeping_standard (h : Steps hash standard Trusted World.init w) :
    w.Bookkeeping hash :=
  ⟨h.recorded.successfulMessages, h.failedMessages_standard, h.recorded.xDomainMsgSender⟩

/-- The bookkeeping of `L1CrossDomainMessengerFast` is right exactly when no target call of a relay
that was not reverted has failed. -/
theorem fast_bookkeeping_iff (h : Steps hash fast Trusted World.init w) :
    w.Bookkeeping hash ↔ ∀ e ∈ w.executed, e.success = true := by
  constructor
  · intro hbook e he
    by_contra hfail
    have hpos : 0 < outcomes hash (xDomainCalldataHash hash e.message) false w.executed :=
      List.countP_pos_iff.mpr ⟨e, he, by simpa using hfail⟩
    have htrue := (hbook.failedMessages _).mpr hpos
    rw [h.failedMessages_fast] at htrue
    cases htrue
  · intro hall
    refine ⟨h.recorded.successfulMessages, fun k => ?_, h.recorded.xDomainMsgSender⟩
    have hzero : outcomes hash k false w.executed = 0 := by
      apply List.countP_eq_zero.mpr
      intro e he
      simp [hall e he]
    rw [h.failedMessages_fast, hzero]
    simp

end Bookkeeping

def refund : CrossDomainMessage := ⟨0x22, 0x11, [0xbe, 0xef], 5⟩

def refundEnvironment : Environment where
  sender := 0x33
  number := 7
  owner := 0x44
  resolve _ := 0
  verifiers := ⟨fun _ => .ok false, fun _ _ _ => .ok true, fun _ _ _ => .ok (true, []),
    fun _ _ _ _ => .ok true, fun _ => .ok 0⟩

def refundProof : L2MessageInclusionProof := ⟨0, ⟨0, 0, 0, 0, []⟩, ⟨0, []⟩, [], []⟩

/-- The fast messenger after `refund` was relayed to a target that returns `success`. -/
def refunded (success : Bool) : World Bytes :=
  {callTarget plain fast refundEnvironment refund (fun w => (w, success))
      {World.init with entered := true} with entered := false}

theorem refunded_steps (success : Bool) :
    Steps plain fast (fun _ => True) World.init (refunded success) := by
  apply Steps.relayMessage refundEnvironment refund refundProof (fun w => (w, success)) (.refl _)
    trivial (fun x => .refl x)
  simp only [relayMessage, bind_eq_ok, require_eq_ok, pure_eq_ok]
  exact ⟨(), rfl, (), rfl, true, rfl, (), rfl, (), rfl, (), rfl, (), by decide, rfl⟩

theorem fast_bookkeeping_refunded :
    (∀ e ∈ (refunded true).executed, e.success = true) ∧ (refunded true).Bookkeeping plain := by
  have hall : ∀ e ∈ (refunded true).executed, e.success = true := by
    simp [refunded, callTarget, recordOutcome, World.init]
  exact ⟨hall, (fast_bookkeeping_iff (refunded_steps true)).mpr hall⟩

theorem fast_bookkeeping_failure_lost :
    Steps plain fast (fun _ => True) World.init (refunded false) ∧
    (refunded false).executed = [⟨refund, false⟩] ∧
    (refunded false).failedMessages (xDomainCalldataHash plain refund) = false ∧
    ¬ (refunded false).Bookkeeping plain := by
  have hexecuted : (refunded false).executed = [⟨refund, false⟩] := rfl
  have hfailed : (refunded false).failedMessages (xDomainCalldataHash plain refund) = false := rfl
  refine ⟨refunded_steps false, hexecuted, hfailed, fun hbook => ?_⟩
  have hiff := hbook.failedMessages (xDomainCalldataHash plain refund)
  rw [hfailed, hexecuted] at hiff
  simp [outcomes] at hiff

theorem bookkeeping_standard_refund :
    ∃ w : World Bytes, w.executed = [⟨refund, false⟩] ∧ w.Bookkeeping plain := by
  have hstep : Steps plain standard (fun _ => True) World.init _ :=
    .relayMessage refundEnvironment refund refundProof (fun w => (w, false)) (.refl _) trivial
      (fun x => .refl x) <| by
        simp only [relayMessage, bind_eq_ok, require_eq_ok, pure_eq_ok]
        exact ⟨(), rfl, (), rfl, true, rfl, (), rfl, (), rfl, (), rfl, (), by decide, rfl⟩
  exact ⟨_, rfl, hstep.bookkeeping_standard⟩

end L1

end Messaging
