import TokamakTitan.Messaging.Bookkeeping

/-! Messages from L2 to L1, over runs of both messengers: what L1 executes was sent on L2 by its
sender, and no message succeeds twice. -/
namespace Messaging
open Checked Abi Rollup List

section Authenticity

variable {H : Type} [DecidableEq H]

/-- Every record of the passer under the messenger's name is the calldata of a sent message. -/
def L2.World.Authentic (hash : Hashing H) (w : L2.World H) : Prop :=
  ∀ message, w.passer (mappingSlot hash (sentMessageKey hash message L2_CROSS_DOMAIN_MESSENGER)) =
    true → ∃ m ∈ w.sent, message = encodeXDomainCalldata m

/-- The verifiers of L1 accept only what holds in one of the L2 states: that the slot `key` of the
passer is one. -/
def ProofsCorrect (hash : Hashing H) (states : List (L2.World H)) (v : L1.Verifiers) : Prop :=
  ∀ proof account storageRoot key, L1.verifyStateRootProof v proof = .ok true →
    v.get (addressBytes L2_TO_L1_MESSAGE_PASSER) proof.stateTrieWitness proof.stateRoot =
      .ok (true, account) →
    v.decodeStorageRoot account = .ok storageRoot →
    v.verifyInclusionProof (hash.toBytes key) [1] proof.storageTrieWitness storageRoot =
      .ok true →
    ∃ w ∈ states, w.passer key = true

/-- Interleaved runs of the two chains; `states` lists the states of L2, the latest first. -/
inductive Run (hash : Hashing H) (l1CrossDomainMessenger : Address) :
    List (L2.World H) → L1.World H → Prop
  | init : Run hash l1CrossDomainMessenger [L2.World.init] L1.World.init
  | l2 {now next : L2.World H} {past : List (L2.World H)} {w : L1.World H}
      (before : Run hash l1CrossDomainMessenger (now :: past) w)
      (steps : L2.Steps hash l1CrossDomainMessenger (fun _ => True) now next) :
      Run hash l1CrossDomainMessenger (next :: now :: past) w
  | l1 {states : List (L2.World H)} {w u : L1.World H}
      (before : Run hash l1CrossDomainMessenger states w)
      (steps : L1.Steps hash L1.standard (ProofsCorrect hash states) w u) :
      Run hash l1CrossDomainMessenger states u

variable {hash : Hashing H} {l1CrossDomainMessenger : Address}

variable {w : L2.World H} {message : Bytes} {sender : Address}

theorem L2.passMessageToL1_authentic (hinj : hash.Injective)
    (hother : sender ≠ L2_CROSS_DOMAIN_MESSENGER) (hw : w.Authentic hash) :
    (L2.passMessageToL1 hash sender message w).Authentic hash := by
  intro message' hslot
  by_cases hsame : mappingSlot hash (sentMessageKey hash message' L2_CROSS_DOMAIN_MESSENGER) =
      mappingSlot hash (sentMessageKey hash message sender)
  · obtain ⟨-, hsender⟩ := sentMessageKey_inj hinj (mappingSlot_inj hinj hsame)
    exact absurd hsender.symm hother
  · simp only [L2.passMessageToL1, Function.update_of_ne hsame] at hslot
    exact hw message' hslot

variable {u : L2.World H}

theorem L2.sendMessage_authentic (hinj : hash.Injective) {target : Address}
    (h : L2.sendMessage hash sender target message w = .ok u) (hw : w.Authentic hash) :
    u.Authentic hash := by
  obtain ⟨-, hu⟩ := L2.sendMessage_eq_ok h
  rw [hu]
  intro message' hslot
  by_cases hsame : mappingSlot hash (sentMessageKey hash message' L2_CROSS_DOMAIN_MESSENGER) =
      mappingSlot hash (sentMessageKey hash
        (encodeXDomainCalldata ⟨target, sender, message, w.messageNonce⟩)
        L2_CROSS_DOMAIN_MESSENGER)
  · obtain ⟨hmessage, -⟩ := sentMessageKey_inj hinj (mappingSlot_inj hinj hsame)
    exact ⟨_, mem_append_right _ (mem_singleton_self _), hmessage⟩
  · simp only [Function.update_of_ne hsame] at hslot
    obtain ⟨m, hm, hmessage⟩ := hw message' hslot
    exact ⟨m, mem_append_left _ hm, hmessage⟩

variable {m : CrossDomainMessage}

theorem L2.relayMessage_sent {number : Uint256} {call : L2.World H → L2.World H × Bool}
    (h : L2.relayMessage hash l1CrossDomainMessenger sender number m call w = .ok u) :
    (u.passer = w.passer ∧ u.sent = w.sent) ∨
    (m.target ≠ L2_TO_L1_MESSAGE_PASSER ∧ u.passer = (call (w.during m)).1.passer ∧
      u.sent = (call (w.during m)).1.sent) := by
  obtain ⟨-, -, ⟨-, rfl⟩ | ⟨htarget, rfl⟩⟩ := L2.relayMessage_eq_ok h
  · exact .inl ⟨rfl, rfl⟩
  · rw [L2.callTarget_eq]
    exact L2.World.after_cases (P := fun x => (x.passer = w.passer ∧ x.sent = w.sent) ∨
      (m.target ≠ L2_TO_L1_MESSAGE_PASSER ∧ x.passer = (call (w.during m)).1.passer ∧
        x.sent = (call (w.during m)).1.sent)) (.inl ⟨rfl, rfl⟩) (.inr ⟨htarget, rfl, rfl⟩)

theorem L2.Steps.authentic (hinj : hash.Injective) {Caller : Address → Prop}
    (h : L2.Steps hash l1CrossDomainMessenger Caller w u) :
    (w.Authentic hash → u.Authentic hash) ∧ w.sent ⊆ u.sent := by
  induction h with
  | refl => exact ⟨id, Subset.refl _⟩
  | passMessageToL1 sender message _ caller other ih =>
    exact ⟨fun hw => L2.passMessageToL1_authentic hinj other (ih.1 hw), ih.2⟩
  | sendMessage sender target message _ caller ok ih =>
    constructor
    · intro hw
      exact L2.sendMessage_authentic hinj ok (ih.1 hw)
    · obtain ⟨-, hu⟩ := L2.sendMessage_eq_ok ok
      rw [hu]
      exact subset_append_of_subset_left _ ih.2
  | relayMessage sender number m call _ caller inner ok ih ihinner =>
    obtain ⟨hpasser, hsent⟩ | ⟨htarget, hpasser, hsent⟩ := L2.relayMessage_sent ok
    · simp only [L2.World.Authentic, hpasser, hsent]
      exact ih
    · obtain ⟨hauth, hsub⟩ := ihinner htarget (L2.World.during _ m)
      simp only [L2.World.Authentic, hpasser, hsent]
      exact ⟨fun hw => hauth (ih.1 hw), Subset.trans ih.2 hsub⟩

variable {states : List (L2.World H)}

theorem ProofsCorrect.sent {v : L1.Verifiers} (hv : ProofsCorrect hash states v)
    (hauth : ∀ s ∈ states, s.Authentic hash) {proof : L1.L2MessageInclusionProof}
    (h : L1.verifyXDomainMessage hash L1.standard v (encodeXDomainCalldata m) proof = .ok true) :
    ∃ s ∈ states, m ∈ s.sent := by
  simp only [L1.verifyXDomainMessage, bind_eq_ok] at h
  obtain ⟨root, hroot, h⟩ := h
  split at h
  next htrue =>
    subst htrue
    simp only [L1.verifyStorageProof, bind_eq_ok, require_eq_ok] at h
    obtain ⟨⟨found, account⟩, hget, -, rfl, storageRoot, hdecode, hverify⟩ := h
    obtain ⟨s, hs, hslot⟩ := hv proof account storageRoot _ hroot hget hdecode hverify
    obtain ⟨m', hm', hmessage⟩ := hauth s hs _ hslot
    rw [encodeXDomainCalldata_inj hmessage]
    exact ⟨s, hs, hm'⟩
  next => cases pure_eq_ok.mp h

/-- The current L2 state sent what earlier ones sent, and L1 executed only what was sent. -/
structure Coherent (hash : Hashing H) (states : List (L2.World H)) (w : L1.World H) : Prop where
  authentic : ∀ s ∈ states, s.Authentic hash
  sent : ∀ s ∈ states, ∀ now ∈ states.head?, s.sent ⊆ now.sent
  executed : ∀ e ∈ w.executed, ∃ s ∈ states, e.message ∈ s.sent
  recorded : w.Recorded hash
  entered : w.entered = false

theorem Coherent.init : Coherent hash [L2.World.init] (L1.World.init : L1.World H) where
  authentic := by simp [L2.World.Authentic, L2.World.init]
  sent := by simp
  executed := by simp [L1.World.init]
  recorded := L1.World.Recorded.init
  entered := rfl

variable {w : L1.World H}

theorem Coherent.l2 (hinj : hash.Injective) {now next : L2.World H} {past : List (L2.World H)}
    (h : Coherent hash (now :: past) w)
    (hsteps : L2.Steps hash l1CrossDomainMessenger (fun _ => True) now next) :
    Coherent hash (next :: now :: past) w := by
  obtain ⟨hauth, hsub⟩ := hsteps.authentic hinj
  refine ⟨?_, ?_, ?_, h.recorded, h.entered⟩
  · intro s hs
    obtain rfl | hs := mem_cons.mp hs
    · exact hauth (h.authentic now (by simp))
    · exact h.authentic s hs
  · intro s hs now' hnow'
    simp only [head?_cons, Option.mem_some_iff] at hnow'
    subst hnow'
    obtain rfl | hs := mem_cons.mp hs
    · exact Subset.refl _
    · exact Subset.trans (h.sent s hs now (by simp)) hsub
  · intro e he
    obtain ⟨s, hs, hmem⟩ := h.executed e he
    exact ⟨s, mem_cons_of_mem _ hs, hmem⟩

theorem Coherent.l1 {u : L1.World H} (h : Coherent hash states w)
    (hsteps : L1.Steps hash L1.standard (ProofsCorrect hash states) w u) :
    Coherent hash states u := by
  have hinv : ((∀ e ∈ u.executed, ∃ s ∈ states, e.message ∈ s.sent) ∧ u.Recorded hash) ∧
      u.entered = false := by
    apply hsteps.invariant _ _ h.entered ⟨h.executed, h.recorded⟩
    · rintro v _ ⟨_, _, rfl⟩ hv
      exact ⟨hv.1, hv.2.sameCore ⟨_, _, rfl⟩⟩
    · intro env v x m proof success htrusted hrelayed hv
      refine ⟨?_, hrelayed.recorded hv.2⟩
      intro e he
      rw [hrelayed.executed, mem_append, mem_singleton] at he
      obtain he | rfl := he
      · exact hv.1 e he
      · exact htrusted.sent h.authentic hrelayed.verified
  exact ⟨h.authentic, h.sent, hinv.1.1, hinv.1.2, hinv.2⟩

theorem Run.coherent (hinj : hash.Injective) (h : Run hash l1CrossDomainMessenger states w) :
    Coherent hash states w := by
  induction h with
  | init => exact Coherent.init
  | l2 _ steps ih => exact ih.l2 hinj steps
  | l1 _ steps ih => exact ih.l1 steps

/-- Every message whose target L1 calls was sent on L2, with that sender, target, message and nonce,
and its call succeeds at most once. -/
theorem l1_execution_authentic (hinj : hash.Injective) {now : L2.World H}
    {past : List (L2.World H)} {w : L1.World H}
    (h : Run hash l1CrossDomainMessenger (now :: past) w) :
    (∀ e ∈ w.executed, e.message ∈ now.sent) ∧ ∀ m, successes w.executed m ≤ 1 := by
  have hcoherent := h.coherent hinj
  constructor
  · intro e he
    obtain ⟨s, hs, hmem⟩ := hcoherent.executed e he
    exact hcoherent.sent s hs now (by simp) hmem
  · intro m
    exact (successes_le_outcomes hash m _).trans (hcoherent.recorded.once _)

end Authenticity

def greeting : CrossDomainMessage := ⟨0x22, 0x11, [0xca, 0xfe], 0⟩

def greetingSent : L2.World Bytes :=
  {L2.passMessageToL1 plain L2_CROSS_DOMAIN_MESSENGER (encodeXDomainCalldata greeting)
      L2.World.init with
    sentMessages := Function.update (fun _ => false) (xDomainCalldataHash plain greeting) true
    messageNonce := 1
    sent := [greeting]}

def greetingVerifiers : L1.Verifiers where
  insideFraudProofWindow _ := .ok false
  verifyStateCommitment _ _ _ := .ok true
  get _ _ _ := .ok (true, [])
  verifyInclusionProof key value _ _ :=
    .ok (decide (key = L1.storageKey plain (encodeXDomainCalldata greeting) ∧ value = [1]))
  decodeStorageRoot _ := .ok 0

def greetingEnvironment : L1.Environment := ⟨0x33, 7, 0x44, fun _ => 0, greetingVerifiers⟩

def greetingProof : L1.L2MessageInclusionProof := ⟨0, ⟨0, 0, 0, 0, []⟩, ⟨0, []⟩, [], []⟩

def greetingRelayed : L1.World Bytes :=
  {L1.callTarget plain L1.standard greetingEnvironment greeting (fun w => (w, true))
      {L1.World.init with entered := true} with entered := false}

theorem greetingVerifiers_correct :
    ProofsCorrect plain [greetingSent, L2.World.init] greetingVerifiers := by
  intro proof account storageRoot key _ _ _ hkey
  simp only [greetingVerifiers, Except.ok.injEq, decide_eq_true_eq] at hkey
  refine ⟨greetingSent, by simp, ?_⟩
  have hslot : key = L1.storageKey plain (encodeXDomainCalldata greeting) := hkey.1
  simp [hslot, greetingSent, L2.passMessageToL1, L1.storageKey]

theorem greeting_verified :
    L1.verifyXDomainMessage plain L1.standard greetingVerifiers (encodeXDomainCalldata greeting)
      greetingProof = .ok true := by
  simp [L1.verifyXDomainMessage, L1.standard, L1.verifyStateRootProof, L1.verifyStorageProof,
    greetingVerifiers, plain, require, bind, Except.bind]

theorem greeting_relay :
    L1.relayMessage plain L1.standard greetingEnvironment greeting greetingProof
      (fun w => (w, true)) L1.World.init = .ok greetingRelayed := by
  simp only [L1.relayMessage, bind_eq_ok, require_eq_ok, pure_eq_ok]
  exact ⟨(), rfl, (), rfl, true, greeting_verified, (), rfl, (), rfl, (), rfl, (), by decide, rfl⟩

theorem greeting_run : Run plain 0x55 [greetingSent, L2.World.init] greetingRelayed := by
  apply Run.l1 (w := L1.World.init)
  · apply Run.l2 Run.init
    exact .sendMessage 0x11 0x22 [0xca, 0xfe] (.refl _) trivial rfl
  · exact .relayMessage greetingEnvironment greeting greetingProof (fun w => (w, true)) (.refl _)
      greetingVerifiers_correct (fun x => .refl x) greeting_relay

theorem l1_execution_authentic_greeting :
    greetingRelayed.executed = [⟨greeting, true⟩] ∧
    (∀ e ∈ greetingRelayed.executed, e.message ∈ greetingSent.sent) ∧
    ∀ m, successes greetingRelayed.executed m ≤ 1 :=
  ⟨rfl, l1_execution_authentic plain_injective greeting_run⟩

end Messaging
