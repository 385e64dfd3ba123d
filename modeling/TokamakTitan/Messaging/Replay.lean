import TokamakTitan.Messaging.Deposits

/-! Messages from L1 to L2 under replays, over runs of both chains: what can be replayed, and that
no message succeeds twice. -/
namespace Messaging
open List hiding tail length_tail
open Checked Abi Rollup CanonicalTransactionChain

section Queue

variable {H : Type} {hash : Hashing H} {messenger : Address}

/-- The queue has what was sent, and only copies of that come from the messenger. -/
structure System.Honest (hash : Hashing H) (messenger : Address) (s : System H) : Prop where
  hashes : s.ctc.queueElements.map QueueElement.transactionHash =
    s.queue.map (Enqueued.transactionHash hash)
  nonces : ∀ e ∈ s.sends, e.message.messageNonce.toNat = e.queueIndex % 2 ^ 40
  sizes : ∀ e ∈ s.sends, e.message.message.length ≤ MAX_ROLLUP_TX_SIZE
  originals : ∀ e ∈ s.sends, s.queue[e.queueIndex]? = some (e.enqueued messenger)
  ordered : s.sends.Pairwise fun e e' => e.queueIndex < e'.queueIndex
  copies : ∀ i tx, s.queue[i]? = some tx → tx.sender = applyL1ToL2Alias messenger →
    ∃ e ∈ s.sends, e.queueIndex ≤ i ∧ tx.target = L2_CROSS_DOMAIN_MESSENGER ∧
      tx.data = encodeXDomainCalldata e.message

variable {s : System H}

variable (h : s.Honest hash messenger)
include h

theorem System.Honest.length : s.ctc.queueElements.length = s.queue.length := by
  have hlen := congrArg List.length h.hashes
  simpa using hlen

variable {e : Send}

theorem System.Honest.index_lt (he : e ∈ s.sends) : e.queueIndex < s.queue.length := by
  obtain ⟨hlt, -⟩ := List.getElem?_eq_some_iff.mp (h.originals e he)
  exact hlt

theorem System.Honest.original_append (he : e ∈ s.sends) (txs : List Enqueued) :
    (s.queue ++ txs)[e.queueIndex]? = some (e.enqueued messenger) := by
  rw [getElem?_append_left (h.index_lt he)]
  exact h.originals e he

variable {ctc : State H}

theorem System.Honest.enqueue {txs : List Enqueued} (hhashes : ctc.queueElements.map
      QueueElement.transactionHash = s.ctc.queueElements.map QueueElement.transactionHash ++ txs.map
      (Enqueued.transactionHash hash)) (hcopies : ∀ tx ∈ txs, tx.sender = applyL1ToL2Alias messenger
      → ∃ e ∈ s.sends, tx.target = L2_CROSS_DOMAIN_MESSENGER ∧ tx.data = encodeXDomainCalldata
      e.message) :
    System.Honest hash messenger {s with ctc, queue := s.queue ++ txs} where
  hashes := by rw [hhashes, h.hashes, map_append]
  nonces := h.nonces
  sizes := h.sizes
  originals := fun e he => h.original_append he txs
  ordered := h.ordered
  copies := by
    intro i tx htx hsender
    rcases Nat.lt_or_ge i s.queue.length with hi | hi
    · rw [getElem?_append_left hi] at htx
      exact h.copies i tx htx hsender
    · rw [getElem?_append_right hi] at htx
      obtain ⟨e, he, htarget, hdata⟩ := hcopies tx (mem_of_getElem? htx) hsender
      exact ⟨e, he, (h.index_lt he).le.trans hi, htarget, hdata⟩

theorem System.Honest.send (hhashes : ctc.queueElements.map QueueElement.transactionHash =
      s.ctc.queueElements.map QueueElement.transactionHash ++ [Enqueued.transactionHash hash
      (e.enqueued messenger)]) (hindex : e.queueIndex = s.queue.length)
    (hnonce : e.message.messageNonce.toNat = e.queueIndex % 2 ^ 40)
    (hsize : e.message.message.length ≤ MAX_ROLLUP_TX_SIZE) :
    System.Honest hash messenger
      {s with ctc, queue := s.queue ++ [e.enqueued messenger], sends := s.sends ++ [e]} where
  hashes := by rw [hhashes, h.hashes, map_append, map_singleton]
  nonces := by
    intro e' he'
    rcases mem_append.mp he' with he' | he'
    · exact h.nonces e' he'
    · rw [mem_singleton.mp he']
      exact hnonce
  sizes := by
    intro e' he'
    rcases mem_append.mp he' with he' | he'
    · exact h.sizes e' he'
    · rw [mem_singleton.mp he']
      exact hsize
  originals := by
    intro e' he'
    rcases mem_append.mp he' with he' | he'
    · exact h.original_append he' _
    · rw [mem_singleton.mp he', hindex]
      exact getElem?_concat_length
  ordered := by
    rw [pairwise_append]
    refine ⟨h.ordered, pairwise_singleton _ _, ?_⟩
    intro e' he' e'' he''
    rw [mem_singleton.mp he'', hindex]
    exact h.index_lt he'
  copies := by
    intro i tx htx hsender
    rcases Nat.lt_or_ge i s.queue.length with hi | hi
    · rw [getElem?_append_left hi] at htx
      obtain ⟨e', he', hrest⟩ := h.copies i tx htx hsender
      exact ⟨e', mem_append_left _ he', hrest⟩
    · rw [getElem?_append_right hi] at htx
      have htx' : tx = e.enqueued messenger := mem_singleton.mp (mem_of_getElem? htx)
      rw [htx']
      exact ⟨e, mem_append_right _ (mem_singleton_self e), hindex.le.trans hi, rfl, rfl⟩

variable [DecidableEq H] {msg : Message}

/-- A replayed message was sent, at the given place of the queue and with the given gas limit; its
transaction differs from the original in the new gas limit only. -/
theorem System.Honest.replay (hinj : hash.Injective) {target sender : Address} {message : Bytes}
    {queueIndex : Uint256} {oldGasLimit newGasLimit : Uint32} {events : List Event}
    (horigin : msg.origin ≠ messenger) (hok : L1.replayMessage hash messenger msg target sender
      message queueIndex oldGasLimit newGasLimit s.ctc = .ok (ctc, events)) :
    ∃ e ∈ s.sends, e.message = ⟨target, sender, message, queueIndex⟩ ∧
      e.queueIndex = queueIndex.toNat ∧ e.gasLimit = oldGasLimit ∧
      enqueuedBy events = [{e.enqueued messenger with gasLimit := newGasLimit.setWidth 256}] := by
  simp only [L1.replayMessage, bind_eq_ok, index_eq_ok, require_eq_ok] at hok
  obtain ⟨element, helement, -, hhash, hsend⟩ := hok
  have hstored := congrArg (·[queueIndex.toNat]?) h.hashes
  simp only [getElem?_map, helement, Option.map_some] at hstored
  obtain ⟨tx, htx, htxhash⟩ := Option.map_eq_some_iff.mp hstored.symm
  -- The stored hash is that of `tx`, so that the arguments of the call are those of `tx`.
  rw [← htxhash, Enqueued.transactionHash, hashEnqueued, hashEnqueued] at hhash
  have hbytes := hinj.keccak hhash
  obtain ⟨hwords, hdata, -⟩ := encodeBytes_inj (by simp) rfl hbytes
  simp only [cons.injEq, and_true] at hwords
  obtain ⟨e, he, hle, -, hcopy⟩ :=
    h.copies _ tx htx (setWidth_address_inj hwords.1).symm
  have hmessage : e.message = ⟨target, sender, message, queueIndex⟩ :=
    encodeXDomainCalldata_inj (hcopy.symm.trans hdata.symm)
  -- A copy that is not the original stands at a later place than its nonce says.
  have hindex : e.queueIndex = queueIndex.toNat := by
    have hnonce := h.nonces e he
    rw [hmessage] at hnonce
    have hmod := Nat.mod_le e.queueIndex (2 ^ 40)
    simp only at hnonce
    omega
  have horiginal := h.originals e he
  rw [hindex, htx, Option.some.injEq] at horiginal
  refine ⟨e, he, hmessage, hindex, ?_, ?_⟩
  · have hgas : oldGasLimit.setWidth 256 = e.gasLimit.setWidth 256 := by
      rw [hwords.2.2, horiginal]
      rfl
    have hnat := congrArg BitVec.toNat hgas
    rw [setWidth_toNat _ (oldGasLimit.isLt.trans (by norm_num)),
      setWidth_toNat _ (e.gasLimit.isLt.trans (by norm_num))] at hnat
    exact (BitVec.eq_of_toNat_eq hnat).symm
  · obtain ⟨-, hevents, -⟩ := L1.sendXDomainMessage_eq_ok horigin hsend
    rw [hevents, Send.enqueued, hmessage]

omit h in
theorem l2Sender_ne_alias (hother : msg.sender ≠ messenger)
    (haccount : msg.sender = msg.origin → msg.sender ≠ applyL1ToL2Alias messenger) :
    l2Sender msg ≠ applyL1ToL2Alias messenger := by
  unfold l2Sender
  by_cases hsame : msg.sender = msg.origin
  · rw [if_pos hsame]
    exact haccount hsame
  · rw [if_neg hsame]
    exact fun heq => hother (applyL1ToL2Alias_inj heq)

variable {d : Deployment} {Caller : Address → Prop}

omit h in
theorem System.Honest.step {s t : System H} (hinj : hash.Injective) (h : s.Honest hash messenger)
    (hstep : System.Step hash messenger d (fun a => a ≠ applyL1ToL2Alias messenger) Caller s t) :
    t.Honest hash messenger := by
  cases hstep with
  | sendMessage msg target message gasLimit origin ok =>
    simp only [L1.sendMessage, bind_eq_ok, pure_eq_ok, Prod.mk.injEq] at ok
    obtain ⟨⟨ctc, events⟩, hsend, rfl, rfl, rfl⟩ := ok
    obtain ⟨hsize, hevents, hhashes⟩ := L1.sendXDomainMessage_eq_ok origin hsend
    rw [hevents] at hhashes ⊢
    apply h.send (e := ⟨⟨target, msg.sender, message, s.ctc.getQueueLength.setWidth 256⟩,
      s.ctc.queueElements.length, gasLimit⟩) hhashes h.length
    · rw [setWidth_toNat _ (s.ctc.getQueueLength.isLt.trans (by norm_num))]
      exact BitVec.toNat_ofNat _ _
    · exact (length_message_le _).trans hsize
  | replayMessage msg target sender message queueIndex oldGasLimit newGasLimit origin ok =>
    obtain ⟨e, he, -, -, -, hevents⟩ := h.replay hinj origin ok
    simp only [L1.replayMessage, bind_eq_ok] at ok
    obtain ⟨-, -, -, -, hsend⟩ := ok
    apply h.enqueue (L1.sendXDomainMessage_eq_ok origin hsend).2.2
    intro tx htx _
    rw [hevents, mem_singleton] at htx
    rw [htx]
    exact ⟨e, he, rfl, rfl⟩
  | other tx other account ok =>
    obtain ⟨hhashes, hsenders⟩ := exec_enqueued ok
    apply h.enqueue hhashes
    intro e he hsender
    rw [hsenders e he] at hsender
    exact absurd hsender (l2Sender_ne_alias other account)
  | execute => exact {h with}
  | sequence => exact {h with}

omit [DecidableEq H] in
theorem System.Honest.nodup (hsmall : ∀ e ∈ s.sends, e.queueIndex < 2 ^ 40) :
    (s.sends.map fun e => encodeXDomainCalldata e.message).Nodup := by
  rw [Nodup, pairwise_map]
  refine h.ordered.imp_of_mem ?_
  intro e e' he he' hlt heq
  have hmessage := encodeXDomainCalldata_inj heq
  have hnonce := h.nonces e he
  rw [hmessage, h.nonces e' he', Nat.mod_eq_of_lt (hsmall e he),
    Nat.mod_eq_of_lt (hsmall e' he')] at hnonce
  omega

end Queue

section Execution

variable {H : Type} [DecidableEq H] {hash : Hashing H} {messenger : Address}
  {Caller : Address → Prop}

/-- Successes on L2 are recorded and not repeated. The record may also hold messages to the passer,
which are not called. -/
def L2.World.Single (hash : Hashing H) (w : L2.World H) : Prop :=
  ∀ h, outcomes hash h true w.executed ≤ 1 ∧
    (w.successfulMessages h = false → outcomes hash h true w.executed = 0)

variable (hcaller : ∀ a, Caller a → a ≠ applyL1ToL2Alias messenger) {w u : L2.World H}
include hcaller

theorem L2.Steps.unrelayed (h : L2.Steps hash messenger Caller w u) :
    u.successfulMessages = w.successfulMessages ∧ u.executed = w.executed := by
  induction h with
  | refl => exact ⟨rfl, rfl⟩
  | passMessageToL1 sender message _ caller other ih => exact ih
  | sendMessage sender target message _ caller ok ih =>
    obtain ⟨-, hu⟩ := L2.sendMessage_eq_ok ok
    rw [hu]
    exact ih
  | relayMessage sender number m call _ caller inner ok =>
    obtain ⟨halias, -⟩ := L2.relayMessage_eq_ok ok
    exact absurd (eq_alias_of_undo halias) (hcaller sender caller)

section Relay

variable {sender : Address} {number : Uint256} {m : CrossDomainMessage}
  {call : L2.World H → L2.World H × Bool} (inner : m.target ≠ L2_TO_L1_MESSAGE_PASSER →
    ∀ x, L2.Steps hash messenger Caller x (call x).1)
include inner

/-- When no call from inside L2 passes for a relay: the message is new, and either it is for the
passer and only recorded, or its target is called. -/
theorem L2.relayMessage_outcome
    (ok : L2.relayMessage hash messenger sender number m call w = .ok u) :
    sender = applyL1ToL2Alias messenger ∧
    w.successfulMessages (xDomainCalldataHash hash m) = false ∧
    ((u.executed = w.executed ∧ u.successfulMessages =
        Function.update w.successfulMessages (xDomainCalldataHash hash m) true) ∨
      ∃ success, u.executed = w.executed ++ [⟨m, success⟩] ∧ u.successfulMessages =
        if success then Function.update w.successfulMessages (xDomainCalldataHash hash m) true
        else w.successfulMessages) := by
  obtain ⟨halias, hfresh, ⟨-, rfl⟩ | ⟨htarget, rfl⟩⟩ := L2.relayMessage_eq_ok ok
  · exact ⟨eq_alias_of_undo halias, hfresh, .inl ⟨rfl, rfl⟩⟩
  · have hsame : (w.after m call).successfulMessages = w.successfulMessages ∧
        (w.after m call).executed = w.executed :=
      L2.World.after_cases (P := fun x => x.successfulMessages = w.successfulMessages ∧
        x.executed = w.executed) ⟨rfl, rfl⟩ ((inner htarget (w.during m)).unrelayed hcaller)
    refine ⟨eq_alias_of_undo halias, hfresh, .inr ⟨(call (w.during m)).2, ?_⟩⟩
    rw [L2.callTarget_eq, hsame.1, hsame.2]
    exact ⟨rfl, rfl⟩

theorem L2.relayMessage_single
    (ok : L2.relayMessage hash messenger sender number m call w = .ok u) (hw : w.Single hash) :
    u.Single hash := by
  obtain ⟨-, hfresh, hcalled⟩ := L2.relayMessage_outcome hcaller inner ok
  have hnone := (hw _).2 hfresh
  intro h
  obtain ⟨hle, hzero⟩ := hw h
  by_cases hh : h = xDomainCalldataHash hash m
  · subst hh
    rcases hcalled with ⟨hexecuted, hsuccessful⟩ | ⟨success, hexecuted, hsuccessful⟩
    · simp [hexecuted, hnone]
    · cases success <;> simp [hexecuted, hsuccessful, outcomes_concat, hnone]
  · have hh' : xDomainCalldataHash hash m ≠ h := fun heq => hh heq.symm
    rcases hcalled with ⟨hexecuted, hsuccessful⟩ | ⟨success, hexecuted, hsuccessful⟩
    · simpa [hexecuted, hsuccessful, hh] using ⟨hle, hzero⟩
    · cases success <;> simpa [hexecuted, hsuccessful, outcomes_concat, hh, hh'] using ⟨hle, hzero⟩

end Relay

theorem L2.World.Single.steps (h : L2.Steps hash messenger Caller w u)
    (hw : w.Single hash) : u.Single hash := by
  obtain ⟨hsuccessful, hexecuted⟩ := h.unrelayed hcaller
  simp only [L2.World.Single, hsuccessful, hexecuted]
  exact hw

def System.ExecutedSent (s : System H) : Prop :=
  ∀ e ∈ s.l2.executed, ∃ send ∈ s.sends, send.message = e.message

variable {d : Deployment} {Account : Address → Prop} {s t : System H}
  (hstep : System.Step hash messenger d Account Caller s t)
include hstep

theorem System.Step.single (hs : s.l2.Single hash) : t.l2.Single hash := by
  cases hstep with
  | sendMessage | replayMessage | other => exact hs
  | execute next executes =>
    cases executes with
    | reverted => exact hs
    | relayMessage number m call target decoded inner ok =>
      exact L2.relayMessage_single hcaller inner ok hs
    | other _ steps => exact hs.steps hcaller steps
  | sequence steps => exact hs.steps hcaller steps

theorem System.Step.executedSent (hhonest : s.Honest hash messenger) (hs : s.ExecutedSent) :
    t.ExecutedSent := by
  cases hstep with
  | sendMessage =>
    intro e he
    obtain ⟨send, hsend, heq⟩ := hs e he
    exact ⟨send, mem_append_left _ hsend, heq⟩
  | replayMessage | other => exact hs
  | execute next executes =>
    cases executes with
    | reverted => exact hs
    | relayMessage number m call target decoded inner ok =>
      obtain ⟨hsender, -, hcalled⟩ := L2.relayMessage_outcome hcaller inner ok
      rcases hcalled with ⟨hexecuted, -⟩ | ⟨success, hexecuted, -⟩
      · simp only [System.ExecutedSent, hexecuted]
        exact hs
      · intro e he
        simp only [hexecuted, mem_append, mem_singleton] at he
        rcases he with he | rfl
        · exact hs e he
        · obtain ⟨send, hsend, -, -, hdata⟩ := hhonest.copies _ _ next hsender
          have hsize := hhonest.sizes send hsend
          rw [hdata, decodeRelayMessage_encode (hsize.trans_lt (by norm_num [MAX_ROLLUP_TX_SIZE])),
            Option.some.injEq] at decoded
          exact ⟨send, hsend, decoded⟩
    | other _ steps =>
      simp only [System.ExecutedSent, (steps.unrelayed hcaller).2]
      exact hs
  | sequence steps =>
    simp only [System.ExecutedSent, (steps.unrelayed hcaller).2]
    exact hs

end Execution

section Run

variable {H : Type} [DecidableEq H] {hash : Hashing H} {messenger : Address} {d : Deployment}

abbrev NotAlias (messenger a : Address) : Prop := a ≠ applyL1ToL2Alias messenger

theorem System.Reachable.invariant (hinj : hash.Injective) {s : System H}
    (h : s.Reachable hash messenger d (NotAlias messenger) (NotAlias messenger)) :
    s.Honest hash messenger ∧ s.l2.Single hash ∧ s.ExecutedSent := by
  obtain ⟨zero, maxGas, divisor, cost, hrun⟩ := h
  induction hrun with
  | refl =>
    refine ⟨⟨rfl, ?_, ?_, ?_, Pairwise.nil, ?_⟩, ?_, ?_⟩ <;>
      simp [System.init, L2.World.Single, L2.World.init, outcomes, System.ExecutedSent]
  | tail _ hstep ih =>
    obtain ⟨hhonest, hsingle, hsent⟩ := ih
    exact ⟨hhonest.step hinj hstep, hstep.single (fun _ ha => ha) hsingle,
      hstep.executedSent (fun _ ha => ha) hhonest hsent⟩

/-- Every message that the messenger on L2 executes was sent on L1, whatever else is enqueued or
replayed. -/
theorem l2_execution_authentic (hinj : hash.Injective) {s : System H}
    (h : s.Reachable hash messenger d (NotAlias messenger) (NotAlias messenger)) :
    ∀ e ∈ s.l2.executed, ∃ send ∈ s.sends, send.message = e.message :=
  (h.invariant hinj).2.2

/-- As long as only the messenger has its address on L2: calldata does not repeat while the length
of the queue is a nonce, only what was sent is replayed, with the original calldata, and a message
succeeds at most once. -/
theorem replays_harmless (hinj : hash.Injective) {s : System H}
    (h : s.Reachable hash messenger d (NotAlias messenger) (NotAlias messenger)) :
    ((∀ e ∈ s.sends, e.queueIndex < 2 ^ 40) →
      (s.sends.map fun e => encodeXDomainCalldata e.message).Nodup) ∧
    (∀ msg target sender message queueIndex oldGasLimit newGasLimit ctc events,
      msg.origin ≠ messenger →
      L1.replayMessage hash messenger msg target sender message queueIndex oldGasLimit newGasLimit
        s.ctc = .ok (ctc, events) →
      ∃ e ∈ s.sends, e.message = ⟨target, sender, message, queueIndex⟩ ∧
        e.queueIndex = queueIndex.toNat ∧ e.gasLimit = oldGasLimit ∧
        s.queue[e.queueIndex]? = some (e.enqueued messenger) ∧
        enqueuedBy events = [{e.enqueued messenger with gasLimit := newGasLimit.setWidth 256}]) ∧
    ∀ m, successes s.l2.executed m ≤ 1 := by
  obtain ⟨hhonest, hsingle, -⟩ := h.invariant hinj
  refine ⟨hhonest.nodup, ?_, ?_⟩
  · intro msg target sender message queueIndex oldGasLimit newGasLimit ctc events horigin hok
    obtain ⟨e, he, hmessage, hindex, hgas, hevents⟩ := hhonest.replay hinj horigin hok
    exact ⟨e, he, hmessage, hindex, hgas, hhonest.originals e he, hevents⟩
  · intro m
    exact (successes_le_outcomes hash m _).trans (hsingle _).1

end Run

variable (Account Caller : Address → Prop)

/-- A messenger, its deployment, and a fresh chain that accepts 200000 gas without a burn. -/
def messenger99 : Address := 0x99

def unitDeployment : Deployment := ⟨fun _ => 1, 1, 1, 1⟩

def freshCtc : State Bytes := State.init [] 1000000 1 1000000

def sendGas : Uint32 := 200000

def callBy (sender origin : Address) : Message := ⟨sender, origin, 1, 1, fun _ => 0, 0⟩

def sendAt (s : State Bytes) : Send :=
  ⟨⟨0x22, 0x11, [], s.getQueueLength.setWidth 256⟩, s.queueElements.length, sendGas⟩

structure Roomy (s : State Bytes) : Prop where
  allowed : (sendGas.setWidth 256).toNat ≤ s.maxTransactionGasLimit.toNat
  prepaid : (sendGas.setWidth 256).toNat ≤ s.enqueueL2GasPrepaid.toNat

theorem freshCtc_roomy : Roomy freshCtc := ⟨by decide, by decide⟩

abbrev HelloStep (Account Caller : Address → Prop) : System Bytes → System Bytes → Prop :=
  System.Step plain messenger99 unitDeployment Account Caller

abbrev Reach (Account Caller : Address → Prop) (s : System Bytes) : Prop :=
  s.Reachable plain messenger99 unitDeployment Account Caller

theorem length_encode_empty (target sender : Address) (nonce : Uint256) :
    (encodeXDomainCalldata ⟨target, sender, [], nonce⟩).length = 164 := by
  simp [encodeXDomainCalldata, encodeBytes, relayMessageSelector, length_tail, padding]

variable {s : State Bytes}

theorem enqueue_roomy (hs : Roomy s) (msg : Message) (target : Address) (data : Bytes)
    (hdata : data.length ≤ MAX_ROLLUP_TX_SIZE) :
    ∃ t events, enqueue plain.keccak msg target (sendGas.setWidth 256) data s =
        .ok (t, events) ∧ Roomy t ∧
      enqueuedBy events = [⟨l2Sender msg, target, sendGas.setWidth 256, data⟩] ∧
      ∃ element, t.queueElements = s.queueElements ++ [element] ∧ element.transactionHash =
        hashEnqueued plain.keccak (l2Sender msg) target (sendGas.setWidth 256) data := by
  have haccepted : ∃ result, enqueue plain.keccak msg target (sendGas.setWidth 256) data s =
      .ok result := enqueue_ok msg target hdata hs.allowed (by decide) hs.prepaid
  obtain ⟨⟨t, events⟩, hok⟩ := haccepted
  obtain ⟨hstate, hevents⟩ := enqueue_eq_ok hok
  refine ⟨t, events, hok, ?_, ?_, ?_⟩
  · rw [hstate]
    exact ⟨hs.allowed, hs.prepaid⟩
  · rw [hevents]
    rfl
  · exact ⟨⟨hashEnqueued plain.keccak (l2Sender msg) target (sendGas.setWidth 256) data,
      msg.timestamp.setWidth 40, msg.number.setWidth 40⟩, by rw [hstate], rfl⟩

theorem send_step (s : System Bytes) (hs : Roomy s.ctc) :
    ∃ ctc, HelloStep Account Caller s {s with
        ctc
        queue := s.queue ++ [(sendAt s.ctc).enqueued messenger99]
        sends := s.sends ++ [sendAt s.ctc]} ∧ Roomy ctc ∧
      ∃ element, ctc.queueElements = s.ctc.queueElements ++ [element] ∧ element.transactionHash =
        Enqueued.transactionHash plain ((sendAt s.ctc).enqueued messenger99) := by
  obtain ⟨ctc, events, hok, hroomy, hevents, helement⟩ :=
    enqueue_roomy hs {callBy 0x11 0x11 with sender := messenger99}
      L2_CROSS_DOMAIN_MESSENGER (encodeXDomainCalldata (sendAt s.ctc).message)
      ((length_encode_empty _ _ _).le.trans (by decide))
  have hstep : HelloStep Account Caller s _ :=
    .sendMessage (callBy 0x11 0x11) 0x22 [] sendGas (by decide)
      (bind_eq_ok.mpr ⟨(ctc, events), hok, rfl⟩)
  rw [hevents] at hstep
  exact ⟨ctc, hstep, hroomy, helement⟩

theorem fill_run (n : ℕ) (haccount : Account 0x33) (s : System Bytes) (hs : Roomy s.ctc) :
    ∃ ctc queue, Relation.ReflTransGen (HelloStep Account Caller) s
        {s with ctc, queue} ∧ Roomy ctc ∧
      ctc.queueElements.length = s.ctc.queueElements.length + n := by
  induction n with
  | zero => exact ⟨s.ctc, s.queue, .refl, hs, rfl⟩
  | succ n ih =>
    obtain ⟨ctc, queue, hrun, hroomy, hlength⟩ := ih
    obtain ⟨ctc', events, hok, hroomy', -, element, helement, -⟩ :=
      enqueue_roomy hroomy (callBy 0x33 0x33) 0x44 [] (by decide)
    refine ⟨ctc', queue ++ enqueuedBy events, hrun.tail ?_, hroomy', ?_⟩
    · exact .other (callBy 0x33 0x33, .enqueue 0x44 (sendGas.setWidth 256) [])
        (by decide) (fun _ => haccount) hok
    · rw [helement, length_append, hlength]
      rfl

abbrev Outsider : Address → Prop := NotAlias messenger99

theorem nonce_repeats :
    ∃ s, Reach Outsider Outsider s ∧
      ∃ e e' : Send, s.sends = [e, e'] ∧ e'.queueIndex = 2 ^ 40 ∧ e.message = e'.message := by
  obtain ⟨ctc, hsend, hroomy, element, helement, -⟩ := send_step Outsider Outsider
    (System.init freshCtc) freshCtc_roomy
  obtain ⟨ctc', queue, hfill, hroomy', hlength'⟩ := fill_run Outsider Outsider
    (2 ^ 40 - 1) (by decide) {System.init freshCtc with
      ctc
      queue := [(sendAt freshCtc).enqueued messenger99]
      sends := [sendAt freshCtc]} hroomy
  obtain ⟨ctc'', hsend', -, -⟩ := send_step Outsider Outsider
    {System.init freshCtc with
      ctc := ctc'
      queue
      sends := [sendAt freshCtc]} hroomy'
  have hone : ctc.queueElements.length = 1 := by
    rw [helement]
    rfl
  have hindex : ctc'.queueElements.length = 2 ^ 40 := by
    simp only [hone] at hlength'
    omega
  refine ⟨_, ⟨[], 1000000, 1, 1000000, ((Relation.ReflTransGen.single hsend).trans hfill).tail
    hsend'⟩, sendAt freshCtc, sendAt ctc', rfl, hindex, ?_⟩
  have hnonce : ctc'.getQueueLength = freshCtc.getQueueLength := by
    rw [State.getQueueLength, hindex]
    rfl
  rw [sendAt, sendAt, hnonce]

def hello : CrossDomainMessage := ⟨0x22, 0x11, [], 0⟩

def helloQueued : Enqueued :=
  ⟨applyL1ToL2Alias messenger99, L2_CROSS_DOMAIN_MESSENGER, sendGas.setWidth 256,
    encodeXDomainCalldata hello⟩

abbrev relayHello : (L2.World Bytes → L2.World Bytes × Bool) → L2.World Bytes → L2.World Bytes :=
  L2.callTarget plain (applyL1ToL2Alias messenger99) 1 hello

theorem replay_roomy (hs : Roomy s) {element : QueueElement Bytes}
    (helement : s.queueElements[0]? = some element)
    (hhash : element.transactionHash = helloQueued.transactionHash plain) :
    ∃ t events, L1.replayMessage plain messenger99 (callBy 0x33 0x33) 0x22 0x11 [] 0
        sendGas sendGas s = .ok (t, events) ∧ enqueuedBy events = [helloQueued] := by
  obtain ⟨t, events, hok, -, hevents, -⟩ :=
    enqueue_roomy hs {callBy 0x33 0x33 with sender := messenger99}
      L2_CROSS_DOMAIN_MESSENGER (encodeXDomainCalldata hello)
      ((length_encode_empty _ _ _).le.trans (by decide))
  refine ⟨t, events, ?_, hevents⟩
  simp only [L1.replayMessage, bind_eq_ok, index_eq_ok, require_eq_ok]
  exact ⟨element, helement, (), hhash.symm, hok⟩

theorem forged_replayed :
    ∃ s, Reach (fun _ => True) Outsider s ∧ s.sends = [] ∧
      ∃ result, L1.replayMessage plain messenger99 (callBy 0x33 0x33) 0x22 0x11 [] 0
        sendGas sendGas s.ctc = .ok result := by
  let forger := applyL1ToL2Alias messenger99
  obtain ⟨ctc, events, hok, hroomy, -, element, helement, hhash⟩ :=
    enqueue_roomy freshCtc_roomy (callBy forger forger) L2_CROSS_DOMAIN_MESSENGER
      (encodeXDomainCalldata hello) ((length_encode_empty _ _ _).le.trans (by decide))
  have hstep : HelloStep (fun _ => True) Outsider (System.init freshCtc) _ :=
    .other (callBy forger forger, .enqueue L2_CROSS_DOMAIN_MESSENGER
      (sendGas.setWidth 256) (encodeXDomainCalldata hello)) (by decide)
      (fun _ => trivial) hok
  have hfirst : ctc.queueElements[0]? = some element := by
    rw [helement]
    rfl
  obtain ⟨t, events', hreplay, -⟩ := replay_roomy hroomy hfirst hhash
  exact ⟨_, ⟨[], 1000000, 1, 1000000, .single hstep⟩, rfl, _, hreplay⟩

def reentrant (w : L2.World Bytes) : L2.World Bytes × Bool :=
  match L2.relayMessage plain messenger99 (applyL1ToL2Alias messenger99) 1 hello
    (fun w => (w, true)) w with
  | .ok u => (u, true)
  | .error _ => (w, false)

theorem reentrant_steps (w : L2.World Bytes) :
    L2.Steps plain messenger99 (fun _ => True) w (reentrant w).1 := by
  unfold reentrant
  cases hrelay : L2.relayMessage plain messenger99 (applyL1ToL2Alias messenger99) 1 hello
    (fun w => (w, true)) w with
  | ok u =>
    exact .relayMessage (applyL1ToL2Alias messenger99) 1 hello
      (fun w => (w, true)) (.refl w) trivial (fun _ x => .refl x) hrelay
  | error e => exact .refl w

theorem sendAt_first : sendAt freshCtc = ⟨hello, 0, sendGas⟩ := by
  decide +kernel

theorem execute_step (s : System Bytes) (call : L2.World Bytes → L2.World Bytes × Bool)
    (hnext : s.queue[s.next]? = some helloQueued)
    (hinner : ∀ x, L2.Steps plain messenger99 Caller x (call x).1)
    (hfresh : s.l2.successfulMessages (xDomainCalldataHash plain hello) = false) :
    HelloStep Account Caller s {s with
      l2 := relayHello call s.l2
      next := s.next + 1} := by
  have hdecoded : decodeRelayMessage helloQueued.data = some hello := by
    unfold helloQueued
    exact decodeRelayMessage_encode (by decide)
  apply System.Step.execute hnext
  apply Executes.relayMessage 1 hello call rfl hdecoded (fun _ => hinner)
  exact L2.relayMessage_ok (undoL1ToL2Alias_apply _) hfresh (by decide)

def helloSent (ctc : State Bytes) : System Bytes :=
  {System.init ctc with queue := [helloQueued], sends := [⟨hello, 0, sendGas⟩]}

theorem send_first :
    ∃ ctc, HelloStep Account Caller (System.init freshCtc) (helloSent ctc) ∧ Roomy ctc ∧
      ∃ element, ctc.queueElements[0]? = some element ∧
        element.transactionHash = helloQueued.transactionHash plain := by
  obtain ⟨ctc, hsend, hroomy, element, helement, hhash⟩ := send_step Account Caller
    (System.init freshCtc) freshCtc_roomy
  have hfirst : sendAt (System.init freshCtc).ctc = ⟨hello, 0, sendGas⟩ :=
    sendAt_first
  rw [hfirst] at hsend hhash
  refine ⟨ctc, hsend, hroomy, element, ?_, hhash⟩
  rw [helement]
  rfl

theorem reentered :
    ∃ s, Reach Outsider (fun _ => True) s ∧ s.sends = [⟨hello, 0, sendGas⟩] ∧
      successes s.l2.executed hello = 2 := by
  obtain ⟨ctc, hsend, -, -⟩ := send_first Outsider (fun _ => True)
  have hexecute := execute_step Outsider (fun _ => True) (helloSent ctc) reentrant rfl
    reentrant_steps rfl
  refine ⟨_, ⟨[], 1000000, 1, 1000000, (Relation.ReflTransGen.single hsend).tail hexecute⟩, rfl, ?_⟩
  have hinner : reentrant (L2.World.init.during hello) =
      (relayHello (fun w => (w, true)) (L2.World.init.during hello), true) := by
    unfold reentrant
    rw [L2.relayMessage_ok (undoL1ToL2Alias_apply _) rfl (by decide)]
  have hexecuted : (relayHello reentrant L2.World.init).executed =
      [⟨hello, true⟩, ⟨hello, true⟩] := by
    simp only [L2.callTarget_eq, L2.World.after, hinner, if_true]
    rfl
  change successes (relayHello reentrant L2.World.init).executed hello = 2
  rw [hexecuted]
  decide

/-- When the queue outgrows the nonces, calldata repeats; an account at the alias has messages
replayed that were not sent; a contract at the alias makes a message succeed twice. -/
theorem replays_harmful :
    (∃ s, Reach Outsider Outsider s ∧
      ¬ (s.sends.map fun e => encodeXDomainCalldata e.message).Nodup) ∧
    (∃ s, Reach (fun _ => True) Outsider s ∧ s.sends = [] ∧
      ∃ result, L1.replayMessage plain messenger99 (callBy 0x33 0x33) 0x22 0x11 [] 0
        sendGas sendGas s.ctc = .ok result) ∧
    ∃ s, Reach Outsider (fun _ => True) s ∧
      s.sends = [⟨hello, 0, sendGas⟩] ∧
      successes s.l2.executed hello = 2 := by
  refine ⟨?_, forged_replayed, reentered⟩
  obtain ⟨s, hreachable, e, e', hsends, -, hmessage⟩ := nonce_repeats
  refine ⟨s, hreachable, ?_⟩
  rw [hsends]
  simp [hmessage]

/-- A message whose first delivery fails is replayed by another account, and then succeeds. -/
theorem replays_harmless_retried :
    ∃ s, Reach Outsider Outsider s ∧
      s.l2.executed = [⟨hello, false⟩, ⟨hello, true⟩] ∧
      s.queue = [helloQueued, helloQueued] ∧
      (s.sends.map fun e => encodeXDomainCalldata e.message).Nodup ∧
      ∀ m, successes s.l2.executed m ≤ 1 := by
  obtain ⟨ctc, hsend, hroomy, element, helement, hhash⟩ := send_first Outsider Outsider
  have hfail := execute_step Outsider Outsider (helloSent ctc) (fun w => (w, false))
    rfl (fun x => .refl x) rfl
  obtain ⟨ctc', events, hreplay, hevents⟩ := replay_roomy hroomy helement hhash
  have hreplayed : HelloStep Outsider Outsider
      {helloSent ctc with
        l2 := relayHello (fun w => (w, false)) L2.World.init
        next := 1} _ :=
    .replayMessage (callBy 0x33 0x33) 0x22 0x11 [] 0 sendGas sendGas (by decide) hreplay
  rw [hevents] at hreplayed
  have hsucceed := execute_step Outsider Outsider
    {helloSent ctc with
      ctc := ctc'
      queue := [helloQueued, helloQueued]
      l2 := relayHello (fun w => (w, false)) L2.World.init
      next := 1} (fun w => (w, true)) rfl (fun x => .refl x) rfl
  have hreachable : Reach Outsider Outsider _ :=
    ⟨[], 1000000, 1, 1000000, (((Relation.ReflTransGen.single hsend).tail hfail).tail
      hreplayed).tail hsucceed⟩
  have hharmless := replays_harmless plain_injective hreachable
  exact ⟨_, hreachable, rfl, rfl, hharmless.1 (by simp [helloSent]), hharmless.2.2⟩

theorem l2_execution_authentic_sent :
    ∃ s, Reach Outsider Outsider s ∧
      s.l2.executed = [⟨hello, true⟩] ∧
      ∃ send ∈ s.sends, send.message = hello := by
  obtain ⟨ctc, hsend, -⟩ := send_first Outsider Outsider
  have hexecute := execute_step Outsider Outsider (helloSent ctc)
    (fun w => (w, true)) rfl (fun x => .refl x) rfl
  have hreachable : Reach Outsider Outsider _ :=
    ⟨[], 1000000, 1, 1000000, (Relation.ReflTransGen.single hsend).tail hexecute⟩
  exact ⟨_, hreachable, rfl, l2_execution_authentic plain_injective hreachable
    ⟨hello, true⟩ (List.mem_singleton_self _)⟩

end Messaging
