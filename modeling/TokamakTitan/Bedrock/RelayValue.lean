import TokamakTitan.Bedrock.CrossDomainMessenger

/-! The values of messages whose relay failed: the messenger keeps them for replays, of which at
most one succeeds. -/
namespace Bedrock
open Checked CallStack Function List Nat
open Abi (Bytes encodeBytes_inj)
open Messaging (DEFAULT_XDOMAIN_SENDER L2_CROSS_DOMAIN_MESSENGER setWidth_address_inj)

theorem encodeCrossDomainMessageV1_inj : Injective encodeCrossDomainMessageV1 := by
  intro m m' h
  obtain ⟨hwords, hmessage, -⟩ :=
    encodeBytes_inj (by simp) (by simp) (append_cancel_left h)
  obtain ⟨nonce, sender, target, value, minGasLimit, message⟩ := m
  obtain ⟨nonce', sender', target', value', minGasLimit', message'⟩ := m'
  simp only [cons.injEq, and_true] at hwords hmessage
  obtain ⟨rfl, hsender, htarget, rfl, rfl⟩ := hwords
  rw [setWidth_address_inj hsender, setWidth_address_inj htarget, hmessage]

section Values

variable {H : Type} {c : Child} {keccak : Bytes → H}

theorem hashCrossDomainMessageV1_inj (hkeccak : Injective keccak) :
    Injective (hashCrossDomainMessageV1 keccak) :=
  hkeccak.comp encodeCrossDomainMessageV1_inj

structure Accepted (c : Child) (keccak : Bytes → H) (env : Env) (m : Message)
    (w atCall : Messenger H) : Prop where
  entered : w.entered = false
  origin : (c.isOtherMessenger env = true ∧ env.value = m.value) ∨
    (c.isOtherMessenger env = false ∧ env.value = 0 ∧
      w.receivedMessages (hashCrossDomainMessageV1 keccak m) = true)
  unsuccessful : w.successfulMessages (hashCrossDomainMessageV1 keccak m) = false
  eq : atCall = {w with
    entered := true
    xDomainMsgSender := m.sender
    balance := w.balance + env.value.toNat
    delivered := if c.isOtherMessenger env then w.delivered ++ [m] else w.delivered}

variable {w : Messenger H} {m : Message} {env : Env}

theorem checkOrigin_eq_ok {u : Unit} (h : checkOrigin c keccak env m w = .ok u) :
    (c.isOtherMessenger env = true ∧ env.value = m.value) ∨
      (c.isOtherMessenger env = false ∧ env.value = 0 ∧
        w.receivedMessages (hashCrossDomainMessageV1 keccak m) = true) := by
  unfold checkOrigin at h
  split at h
  next hother => exact .inl ⟨hother, assert_eq_ok.mp h⟩
  next hother =>
    obtain ⟨u, hvalue, hreceived⟩ := bind_eq_ok.mp h
    exact .inr ⟨Bool.eq_false_iff.mpr hother, require_eq_ok.mp hvalue, require_eq_ok.mp hreceived⟩

variable {atCall : Messenger H}

theorem relayMessage_eq_ok {gasleft gasleftAtCall gas : Uint256}
    (h : relayMessage c keccak env gasleft gasleftAtCall m w = .ok (atCall, gas)) :
    Accepted c keccak env m w atCall := by
  simp only [relayMessage, bind_eq_ok, require_eq_ok, pure_eq_ok, Prod.mk.injEq] at h
  obtain ⟨-, hentered, -, -, -, -, u, horigin, -, -, -, hunsuccessful, -, -, -, -, -, -, heq, -⟩ :=
    h
  exact ⟨hentered, checkOrigin_eq_ok horigin, hunsuccessful, heq.symm⟩

/-- The invariant of a messenger and of the messages whose targets run. At most one of them does,
and its value is the only one that may be missing. -/
structure Backed (keccak : Bytes → H) (waiting : List Message) (w : Messenger H) : Prop where
  entered : w.entered = !waiting.isEmpty
  single : waiting.length ≤ 1
  xDomainMsgSender : waiting = [] → w.xDomainMsgSender = DEFAULT_XDOMAIN_SENDER
  succeeded : ∀ m ∈ w.succeeded, w.successfulMessages (hashCrossDomainMessageV1 keccak m) = true
  once : w.succeeded.Nodup
  unsuccessful : ∀ m ∈ waiting, w.successfulMessages (hashCrossDomainMessageV1 keccak m) = false
  received : ∀ m, w.receivedMessages (hashCrossDomainMessageV1 keccak m) = true →
    m ∈ w.delivered ∧ m ∈ w.failed
  values : ∀ S : Finset Message, (∀ m ∈ S, w.Pending keccak m ∧ m ∉ waiting) →
    ∑ m ∈ S, m.value.toNat ≤ w.balance

theorem Fresh.backed (h : Fresh w) : Backed keccak [] w := by
  constructor
  case entered => exact h.entered
  case single => exact zero_le _
  case xDomainMsgSender => exact fun _ => h.xDomainMsgSender
  case succeeded =>
    intro m hm
    rw [h.succeeded] at hm
    cases hm
  case once =>
    rw [h.succeeded]
    exact nodup_nil
  case unsuccessful =>
    intro m hm
    cases hm
  case received =>
    intro m hm
    rw [h.receivedMessages] at hm
    cases hm
  case values =>
    intro S hS
    have hempty : S = ∅ := by
      apply Finset.eq_empty_of_forall_notMem
      intro m hm
      have hreceived := (hS m hm).1.1
      rw [h.receivedMessages] at hreceived
      cases hreceived
    rw [hempty, Finset.sum_empty]
    exact zero_le _

variable {w' : Messenger H} {waiting : List Message}

theorem Backed.of_agree (h : Backed keccak waiting w) (hentered : w'.entered = w.entered)
    (hsender : w'.xDomainMsgSender = w.xDomainMsgSender)
    (hsuccessful : w'.successfulMessages = w.successfulMessages)
    (hreceived : w'.receivedMessages = w.receivedMessages) (hsucceeded : w'.succeeded = w.succeeded)
    (hdelivered : w'.delivered = w.delivered) (hfailed : w'.failed = w.failed)
    (hbalance : w.balance ≤ w'.balance) : Backed keccak waiting w' := by
  constructor
  case entered => exact hentered.trans h.entered
  case single => exact h.single
  case xDomainMsgSender => exact fun hnil => hsender.trans (h.xDomainMsgSender hnil)
  case succeeded =>
    rw [hsuccessful, hsucceeded]
    exact h.succeeded
  case once =>
    rw [hsucceeded]
    exact h.once
  case unsuccessful =>
    rw [hsuccessful]
    exact h.unsuccessful
  case received =>
    rw [hreceived, hdelivered, hfailed]
    exact h.received
  case values =>
    intro S hS
    refine (h.values S fun m hm => ?_).trans hbalance
    have hpending := hS m hm
    rw [Messenger.Pending, hsuccessful, hreceived] at hpending
    exact hpending

theorem Backed.forced (h : Backed keccak waiting w) (hforced : Forced w w') :
    Backed keccak waiting w' := by
  obtain ⟨amount, rfl⟩ := hforced
  exact h.of_agree rfl rfl rfl rfl rfl rfl rfl (le_add_right _ _)

theorem Backed.nil_of_accepted (h : Backed keccak waiting w)
    (hrelay : Accepted c keccak env m w atCall) : waiting = [] := by
  have hentered := h.entered.symm.trans hrelay.entered
  simpa using hentered

theorem Backed.value_le (h : Backed keccak [] w) (hrelay : Accepted c keccak env m w atCall)
    {S : Finset Message} (hm : m ∉ S) (hS : ∀ m' ∈ S, w.Pending keccak m') :
    m.value.toNat + ∑ m' ∈ S, m'.value.toNat ≤ atCall.balance := by
  rw [hrelay.eq]
  rcases hrelay.origin with ⟨-, hvalue⟩ | ⟨-, -, hreceived⟩
  · have hsum := h.values S fun m' hm' => ⟨hS m' hm', not_mem_nil⟩
    simp only [hvalue]
    omega
  · classical
    have hsum := h.values (insert m S) fun m' hm' => by
      refine ⟨?_, not_mem_nil⟩
      rcases Finset.mem_insert.mp hm' with rfl | hm'
      · exact ⟨hreceived, hrelay.unsuccessful⟩
      · exact hS m' hm'
    rw [Finset.sum_insert hm] at hsum
    exact hsum.trans (le_add_right _ _)

theorem Backed.mem_delivered (h : Backed keccak waiting w)
    (hrelay : Accepted c keccak env m w atCall) : m ∈ atCall.delivered := by
  rw [hrelay.eq]
  rcases hrelay.origin with ⟨hother, -⟩ | ⟨hother, -, hreceived⟩
  · simp only [hother, if_true]
    exact mem_append_right _ (mem_singleton_self m)
  · simp only [hother, Bool.false_eq_true, if_false]
    exact (h.received m hreceived).1

theorem Accepted.delivered_subset (hrelay : Accepted c keccak env m w atCall) :
    w.delivered ⊆ atCall.delivered := by
  rw [hrelay.eq]
  dsimp only
  split
  next => exact subset_append_left _ _
  next => exact Subset.refl _

theorem Backed.relay (h : Backed keccak waiting w) (hrelay : Accepted c keccak env m w atCall) :
    Backed keccak (m :: waiting) {atCall with balance := atCall.balance - m.value.toNat} := by
  obtain rfl := h.nil_of_accepted hrelay
  have hsub := hrelay.delivered_subset
  have hvalue := fun (S : Finset Message) => h.value_le hrelay (S := S)
  have heq := hrelay.eq
  constructor
  case entered => rw [heq]; rfl
  case single => exact le_refl _
  case xDomainMsgSender =>
    intro hnil
    cases hnil
  case succeeded =>
    rw [heq]
    exact h.succeeded
  case once =>
    rw [heq]
    exact h.once
  case unsuccessful =>
    intro m' hm'
    rw [mem_singleton.mp hm', heq]
    exact hrelay.unsuccessful
  case received =>
    intro m' hm'
    have hbefore := h.received m' (by rw [heq] at hm'; exact hm')
    refine ⟨hsub hbefore.1, ?_⟩
    rw [heq]
    exact hbefore.2
  case values =>
    intro S hS
    have hm : m ∉ S := fun hm => (hS m hm).2 (mem_singleton_self m)
    have hsum := hvalue S hm fun m' hm' => by
      have hpending := (hS m' hm').1
      rw [heq] at hpending
      exact hpending
    dsimp only
    omega

variable [DecidableEq H]

theorem Backed.returned (h : Backed keccak (m :: waiting) w) :
    Backed keccak waiting (finishRelay keccak m true w) := by
  obtain rfl : waiting = [] := by
    have hlen := h.single
    simpa using hlen
  have hnew := h.unsuccessful m (mem_singleton_self m)
  constructor
  case entered => rfl
  case single => exact zero_le _
  case xDomainMsgSender => exact fun _ => rfl
  case succeeded =>
    intro m' hm'
    by_cases heq : hashCrossDomainMessageV1 keccak m' = hashCrossDomainMessageV1 keccak m
    · simp [finishRelay, heq]
    · rcases mem_append.mp hm' with hm' | hm'
      · simpa [finishRelay, update_of_ne heq] using h.succeeded m' hm'
      · rw [mem_singleton.mp hm'] at heq
        exact absurd rfl heq
  case once =>
    refine nodup_append.mpr ⟨h.once, nodup_singleton m, ?_⟩
    intro a ha b hb hab
    rw [mem_singleton.mp hb] at hab
    have hdone := h.succeeded a ha
    rw [hab, hnew] at hdone
    cases hdone
  case unsuccessful =>
    intro m' hm'
    cases hm'
  case received => exact h.received
  case values =>
    intro S hS
    refine h.values S fun m' hm' => ?_
    obtain ⟨hreceived, hunsuccessful⟩ := (hS m' hm').1
    have hne : hashCrossDomainMessageV1 keccak m' ≠ hashCrossDomainMessageV1 keccak m := by
      intro heq
      simp [finishRelay, heq] at hunsuccessful
    refine ⟨⟨hreceived, ?_⟩, fun hmem => hne (by rw [mem_singleton.mp hmem])⟩
    simpa [finishRelay, update_of_ne hne] using hunsuccessful

variable {waiting : List Message}

theorem Backed.failed (hkeccak : Injective keccak) (h : Backed keccak waiting w)
    (hrelay : Accepted c keccak env m w atCall) :
    Backed keccak waiting (finishRelay keccak m false atCall) := by
  obtain rfl := h.nil_of_accepted hrelay
  have hinj := hashCrossDomainMessageV1_inj hkeccak
  have hdelivered := h.mem_delivered hrelay
  have hsub := hrelay.delivered_subset
  have heq := hrelay.eq
  -- Apart from the message itself, no other one is recorded as received.
  have hreceived : ∀ m', m' ≠ m → (finishRelay keccak m false atCall).receivedMessages
      (hashCrossDomainMessageV1 keccak m') = true →
      w.receivedMessages (hashCrossDomainMessageV1 keccak m') = true := by
    intro m' hne hm'
    have hhash : hashCrossDomainMessageV1 keccak m' ≠ hashCrossDomainMessageV1 keccak m :=
      fun hh => hne (hinj hh)
    simpa [finishRelay, update_of_ne hhash, heq] using hm'
  constructor
  case entered => rfl
  case single => exact zero_le _
  case xDomainMsgSender => exact fun _ => rfl
  case succeeded =>
    simp only [finishRelay, heq]
    exact h.succeeded
  case once =>
    simp only [finishRelay, heq]
    exact h.once
  case unsuccessful =>
    intro m' hm'
    cases hm'
  case received =>
    intro m' hm'
    by_cases hm : m' = m
    · rw [hm]
      exact ⟨hdelivered, mem_append_right _ (mem_singleton_self m)⟩
    · have hbefore := h.received m' (hreceived m' hm hm')
      refine ⟨hsub hbefore.1, mem_append_left _ ?_⟩
      rw [heq]
      exact hbefore.2
  case values =>
    intro S hS
    have hpending : ∀ m' ∈ S.erase m, w.Pending keccak m' := by
      intro m' hm'
      obtain ⟨hne, hmem⟩ := Finset.mem_erase.mp hm'
      obtain ⟨hm', hunsuccessful⟩ := (hS m' hmem).1
      refine ⟨hreceived m' hne hm', ?_⟩
      simpa [finishRelay, heq] using hunsuccessful
    have hsum := h.value_le hrelay (Finset.notMem_erase m S) hpending
    by_cases hm : m ∈ S
    · rw [← Finset.add_sum_erase S _ hm]
      exact hsum
    · rw [Finset.erase_eq_of_notMem hm] at hsum
      exact (le_add_left _ _).trans hsum

theorem Backed.act (hkeccak : Injective keccak) (h : Backed keccak waiting w)
    (hact : Act c keccak w w') : Backed keccak waiting w' := by
  cases hact with
  | forced hforced => exact h.forced hforced
  | pause env hok =>
    simp only [pause, bind_eq_ok, pure_eq_ok] at hok
    obtain ⟨-, -, -, -, rfl⟩ := hok
    exact h.of_agree rfl rfl rfl rfl rfl rfl rfl (le_refl _)
  | unpause env hok =>
    simp only [unpause, bind_eq_ok, pure_eq_ok] at hok
    obtain ⟨-, -, -, -, rfl⟩ := hok
    exact h.of_agree rfl rfl rfl rfl rfl rfl rfl (le_refl _)
  | transferOwnership env newOwner hok =>
    simp only [transferOwnership, bind_eq_ok, pure_eq_ok] at hok
    obtain ⟨-, -, -, -, rfl⟩ := hok
    exact h.of_agree rfl rfl rfl rfl rfl rfl rfl (le_refl _)
  | renounceOwnership env hok =>
    simp only [renounceOwnership, bind_eq_ok, pure_eq_ok] at hok
    obtain ⟨-, -, rfl⟩ := hok
    exact h.of_agree rfl rfl rfl rfl rfl rfl rfl (le_refl _)
  | sendMessage env target message minGasLimit hok =>
    simp only [sendMessage, bind_eq_ok, pure_eq_ok] at hok
    obtain ⟨gasLimit, -, rfl⟩ := hok
    refine h.of_agree rfl rfl rfl rfl rfl rfl rfl ?_
    exact (Nat.add_sub_cancel _ _).ge
  | unpaid env gasleft gasleftAtCall m gas hok =>
    exact h.failed hkeccak (relayMessage_eq_ok hok)

theorem messengerContract_keeps (hkeccak : Injective keccak) :
    (messengerContract c keccak).Keeps (fun _ => True) (Backed keccak) := by
  constructor
  case idle => exact fun _ h hforced => h.forced hforced
  case act => exact fun _ h hact => h.act hkeccak hact
  case call =>
    rintro ks m w atCall w' - h ⟨env, _, _, _, hok, -, rfl⟩
    exact h.relay (relayMessage_eq_ok hok)
  case returned =>
    rintro ks m w w' h rfl
    exact h.returned
  case failed =>
    rintro ks m w atCall inside w' - h ⟨env, _, _, _, hok, -, -⟩ rfl
    exact h.failed hkeccak (relayMessage_eq_ok hok)

/-- In every run: a message succeeds at most once; a replay is accepted only for a message that was
delivered and failed, and its value can be paid; the messenger owns the values of the messages that
wait for their replay, apart from one whose replay is in progress; and outside of target calls the
sender is the default. -/
theorem relays_backed (hkeccak : Function.Injective keccak) {init : Messenger H}
    (hinit : Fresh init) {s : State (Messenger H) Message}
    (h : Reachable (messengerContract c keccak) (fun _ => True) init s) :
    s.world.succeeded.Nodup ∧
      (∀ env gasleft gasleftAtCall m atCall gas,
        relayMessage c keccak env gasleft gasleftAtCall m s.world = .ok (atCall, gas) →
        c.isOtherMessenger env = false →
        m ∈ s.world.delivered ∧ m ∈ s.world.failed ∧ m.value.toNat ≤ s.world.balance) ∧
      (∀ S : Finset Message, (∀ m ∈ S, s.world.Pending keccak m ∧ m ∉ s.waiting) →
        ∑ m ∈ S, m.value.toNat ≤ s.world.balance) ∧
      s.waiting.length ≤ 1 ∧
      (s.waiting = [] → s.world.xDomainMsgSender = DEFAULT_XDOMAIN_SENDER) := by
  have hinv := h.invariant (messengerContract_keeps hkeccak) trivial hinit.backed
  refine ⟨hinv.once, ?_, hinv.values, hinv.single, hinv.xDomainMsgSender⟩
  intro env gasleft gasleftAtCall m atCall gas hok hother
  have hrelay := relayMessage_eq_ok hok
  rcases hrelay.origin with ⟨htrue, -⟩ | ⟨-, -, hreceived⟩
  · rw [hother] at htrue
    cases htrue
  · obtain ⟨hdelivered, hfailed⟩ := hinv.received m hreceived
    have hsum := hinv.values {m} fun m' hm' => by
      rw [Finset.mem_singleton.mp hm', hinv.nil_of_accepted hrelay]
      exact ⟨⟨hreceived, hrelay.unsuccessful⟩, List.not_mem_nil⟩
    rw [Finset.sum_singleton] at hsum
    exact ⟨hdelivered, hfailed, hsum⟩

end Values

def l1Child : Child := l1CrossDomainMessenger 0x77 0x99

def payMessage : Message where
  nonce := encodeVersionedNonce 0 MESSAGE_VERSION
  sender := 0x22
  target := 0x31
  value := 5
  minGasLimit := 200000
  message := []

def freshMessenger : Messenger Bytes where
  owner := 1
  paused := false
  entered := false
  successfulMessages := fun _ => false
  xDomainMsgSender := DEFAULT_XDOMAIN_SENDER
  msgNonce := 0
  receivedMessages := fun _ => false
  balance := 0
  sent := []
  delivered := []
  failed := []
  succeeded := []

theorem fresh_freshMessenger : Fresh freshMessenger := ⟨rfl, rfl, rfl, rfl, rfl⟩

def deliveryEnv : Env := ⟨0x99, 5, L2_CROSS_DOMAIN_MESSENGER⟩

def replayEnv : Env := ⟨0x22, 0, DEFAULT_XDOMAIN_SENDER⟩

def deliveredMessenger : Messenger Bytes :=
  {freshMessenger with
    entered := true
    xDomainMsgSender := 0x22
    balance := 5
    delivered := [payMessage]}

theorem relayMessage_delivery : relayMessage l1Child id deliveryEnv 300000
    290000 payMessage freshMessenger = .ok (deliveredMessenger, 250000) := by rfl

def failedMessenger : Messenger Bytes := finishRelay id payMessage false deliveredMessenger

theorem failedMessenger_received : failedMessenger.receivedMessages
    (hashCrossDomainMessageV1 id payMessage) = true := by
  simp only [failedMessenger, finishRelay, Bool.false_eq_true, if_false, update_self]

def replayedMessenger : Messenger Bytes :=
  {failedMessenger with
    entered := true
    xDomainMsgSender := 0x22}

theorem relayMessage_replay : relayMessage l1Child id replayEnv 300000 290000
    payMessage failedMessenger = .ok (replayedMessenger, 250000) := by
  have horigin : checkOrigin l1Child id replayEnv payMessage failedMessenger =
      .ok () := by
    have hother : l1Child.isOtherMessenger replayEnv = false := by decide
    simp only [checkOrigin, hother, failedMessenger_received]
    rfl
  rw [relayMessage, horigin]
  rfl

/-- The messenger while the target of the delivery runs, and while that of the replay does. -/
def deliveryState : State (Messenger Bytes) Message :=
  ⟨{deliveredMessenger with balance := 0},
    [.waiting freshMessenger deliveredMessenger payMessage, .code freshMessenger]⟩

def replayState : State (Messenger Bytes) Message :=
  ⟨{replayedMessenger with balance := 0},
    [.waiting failedMessenger replayedMessenger payMessage, .code freshMessenger]⟩

def failedState : State (Messenger Bytes) Message := ⟨failedMessenger, [.code freshMessenger]⟩

theorem reachable_failedState : Reachable (messengerContract l1Child id) (fun _ => True)
    freshMessenger failedState := by
  have hdelivery : Reachable (messengerContract l1Child id) (fun _ => True)
      freshMessenger deliveryState := by
    refine (Relation.ReflTransGen.single ⟨Step.enter, trivial⟩).tail ⟨.call ?_, trivial⟩
    exact ⟨deliveryEnv, 300000, 290000, 250000, relayMessage_delivery, by decide, rfl⟩
  exact hdelivery.tail ⟨.failed rfl, trivial⟩

theorem reachable_replayState : Reachable (messengerContract l1Child id) (fun _ => True)
    freshMessenger replayState := by
  refine reachable_failedState.tail ⟨.call ?_, trivial⟩
  exact ⟨replayEnv, 300000, 290000, 250000, relayMessage_replay, by decide, rfl⟩

/-- The replay of the failed message is accepted. -/
theorem relays_backed_sample :
    (payMessage ∈ failedState.world.delivered ∧ payMessage ∈ failedState.world.failed ∧
      payMessage.value.toNat ≤ failedState.world.balance) ∧
    failedState.world.xDomainMsgSender = DEFAULT_XDOMAIN_SENDER := by
  obtain ⟨-, hreplays, -, -, hsender⟩ :=
    relays_backed Function.injective_id fresh_freshMessenger reachable_failedState
  exact ⟨hreplays replayEnv 300000 290000 payMessage _ _ relayMessage_replay (by decide),
    hsender rfl⟩

/-- While a replay is in progress, the messenger does not own the value of its message. -/
theorem replay_in_progress_unbacked :
    ∃ s, Reachable (messengerContract l1Child id) (fun _ => True) freshMessenger s ∧
      s.world.Pending id payMessage ∧ s.world.balance < payMessage.value.toNat := by
  have hpending : replayState.world.Pending id payMessage := by
    constructor
    · simp only [replayState, replayedMessenger, failedMessenger_received]
    · simp only [replayState, replayedMessenger, failedMessenger, finishRelay, deliveredMessenger,
        freshMessenger, Bool.false_eq_true, if_false]
  exact ⟨replayState, reachable_replayState, hpending, by decide⟩

end Bedrock
