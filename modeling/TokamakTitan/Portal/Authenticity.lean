import TokamakTitan.Portal.Withdrawals

/-! Withdrawals are authentic, delayed, and executed at most once, whatever the targets and the
callers of the portal do. -/
namespace Portal
open Checked Messaging CallStack Function List
open Abi (Bytes encodeBytes encodeBytes_inj)

variable {tx : WithdrawalTransaction}

section Hashes

variable {H : Type} {d : Deployment H}

theorem hashWithdrawal_inj (hd : d.Sound) {tx' : WithdrawalTransaction}
    (h : hashWithdrawal d.hash tx = hashWithdrawal d.hash tx') : tx = tx' := by
  obtain ⟨hwords, hdata, -⟩ := encodeBytes_inj (by simp) (by simp) (hd.keccak h)
  simp only [cons.injEq, and_true] at hwords
  obtain ⟨hnonce, hsender, htarget, hvalue, hgasLimit⟩ := hwords
  obtain ⟨nonce, sender, target, value, gasLimit, data⟩ := tx
  obtain ⟨nonce', sender', target', value', gasLimit', data'⟩ := tx'
  simp only [WithdrawalTransaction.mk.injEq]
  exact ⟨hnonce, setWidth_address_inj hsender, setWidth_address_inj htarget, hvalue, hgasLimit,
    hdata⟩

theorem hashOutputRootProof_inj (hd : d.Sound) {proof proof' : OutputRootProof H}
    (h : hashOutputRootProof d.hash proof = hashOutputRootProof d.hash proof') :
    proof.messagePasserStorageRoot = proof'.messagePasserStorageRoot := by
  obtain ⟨-, hrest⟩ := hd.toBytes (hd.keccak h)
  obtain ⟨-, hrest⟩ := hd.toBytes hrest
  exact (hd.toBytes hrest).1

theorem mappingSlot_injective (hd : d.Sound) {key key' : H}
    (h : mappingSlot d.hash key = mappingSlot d.hash key') : key = key' :=
  (hd.toBytes (hd.keccak h)).1

end Hashes

section Invariant

variable {H : Type} (d : Deployment H)

/-- A storage of the passer holds only withdrawals that were initiated up to an L2 block. -/
def SentBy (initiated : List Initiation) (n : ℕ) (storage : H → Uint256) : Prop :=
  ∀ key, storage (mappingSlot d.hash key) = 1 →
    ∃ i ∈ initiated, hashWithdrawal d.hash i.tx = key ∧ i.block ≤ n

/-- The withdrawal was initiated by its sender at or before the L2 block whose output was proven,
and that output was proposed the finalization period before. -/
def TargetCall.Authentic (w : World H) (call : TargetCall H) : Prop :=
  ∃ checkpoint, L2OutputOracle.lookupBlockNumber d.oracle call.l2BlockNumber = .ok checkpoint ∧
    (∃ i ∈ w.initiated, i.tx = call.tx ∧ i.block ≤ checkpoint.toNat) ∧
    (checkpoint, call.proposal) ∈ w.proposed ∧
    call.proposal.timestamp.toNat + d.finalizationPeriodSeconds.toNat < call.timestamp.toNat

def initiatorOf : List WithdrawalTransaction → Address
  | [] => DEFAULT_L2_SENDER
  | tx :: _ => tx.sender

/-- Calls are authentic and made once, and `l2Sender` is that of the innermost one. -/
structure Inv [Zero H] (waiting : List WithdrawalTransaction) (w : World H) : Prop where
  passer : SentBy d w.initiated w.number w.passer
  blocks : ∀ n block, w.blocks n = some block → SentBy d w.initiated n block.passer ∧
    block.output.messagePasserStorageRoot = d.storageRoot block.passer
  proposed : ∀ b, (w.oracle.l2Outputs b).outputRoot ≠ 0 → (b, w.oracle.l2Outputs b) ∈ w.proposed
  once : (w.calls.map fun call => hashWithdrawal d.hash call.tx).Nodup
  finalized : ∀ call ∈ w.calls, w.finalizedWithdrawals (hashWithdrawal d.hash call.tx) = true
  authentic : ∀ call ∈ w.calls, call.Authentic d w
  l2Sender : w.l2Sender = initiatorOf waiting
  nested : ∀ tx ∈ waiting.tail, tx.sender = DEFAULT_L2_SENDER

variable {d}

theorem SentBy.mono {initiated initiated' : List Initiation} {n n' : ℕ} {storage : H → Uint256}
    (h : SentBy d initiated n storage) (hmem : ∀ i ∈ initiated, i ∈ initiated') (hn : n ≤ n') :
    SentBy d initiated' n' storage := by
  intro key hkey
  obtain ⟨i, hi, hhash, hblock⟩ := h key hkey
  exact ⟨i, hmem i hi, hhash, le_trans hblock hn⟩

variable {w w' : World H} {call : TargetCall H}

theorem TargetCall.Authentic.mono (h : call.Authentic d w)
    (hinitiated : ∀ i ∈ w.initiated, i ∈ w'.initiated)
    (hproposed : ∀ p ∈ w.proposed, p ∈ w'.proposed) : call.Authentic d w' := by
  obtain ⟨checkpoint, hlookup, ⟨i, hi, htx, hblock⟩, hmem, htime⟩ := h
  exact ⟨checkpoint, hlookup, ⟨i, hinitiated i hi, htx, hblock⟩, hproposed _ hmem, htime⟩

variable [Zero H]

theorem Initial.inv (h : Initial d w) : Inv d [] w := by
  have hempty : ∀ n, SentBy d w.initiated n fun _ => 0 := by
    intro n key hkey
    have hne : (0 : Uint256) ≠ 1 := by decide
    exact absurd hkey hne
  constructor
  case passer =>
    rw [h.passer]
    exact hempty _
  case blocks =>
    intro n block hblock
    obtain ⟨hpasser, hroot⟩ := h.blocks n block hblock
    rw [hroot, hpasser]
    exact ⟨hempty n, rfl⟩
  case proposed => exact h.proposed
  case once => simp [h.calls]
  case finalized => simp [h.calls]
  case authentic => simp [h.calls]
  case l2Sender => exact h.l2Sender
  case nested => simp

variable {waiting : List WithdrawalTransaction}

theorem Inv.sealBlock (h : Inv d waiting w) (version stateRoot latestBlockhash : H) :
    Inv d waiting (Portal.sealBlock d version stateRoot latestBlockhash w) := by
  refine {h with passer := ?passer, blocks := ?blocks}
  case passer => exact h.passer.mono (fun _ hi => hi) (Nat.le_succ _)
  case blocks =>
    intro n block hblock
    simp only [Portal.sealBlock] at hblock
    by_cases hn : n = w.number
    · rw [hn, update_self, Option.some.injEq] at hblock
      rw [← hblock, hn]
      exact ⟨h.passer, rfl⟩
    · rw [update_of_ne hn] at hblock
      exact h.blocks n block hblock

theorem Inv.reset (h : Inv d (tx :: waiting) w) : Inv d waiting (resetL2Sender w) := by
  refine {h with l2Sender := ?l2Sender, nested := ?nested}
  case l2Sender =>
    cases waiting with
    | nil => rfl
    | cons outer => exact (h.nested outer (by simp)).symm
  case nested => exact fun other hother => h.nested other (mem_of_mem_tail hother)

variable [DecidableEq H] {waiting : List WithdrawalTransaction}

theorem Inv.initiate (hd : d.Sound) (h : Inv d waiting w) (sender : Address) (value : Uint256)
    (target : Address) (gasLimit : Uint256) (data : Bytes) :
    Inv d waiting (initiateWithdrawal d sender value target gasLimit data w) := by
  have hmem : ∀ i ∈ w.initiated,
      i ∈ (initiateWithdrawal d sender value target gasLimit data w).initiated :=
    fun i hi => mem_append_left _ hi
  refine {h with passer := ?passer, blocks := ?blocks, authentic := ?authentic}
  case passer =>
    intro key hkey
    simp only [initiateWithdrawal] at hkey
    rw [update_of_ne (hd.nonceSlot key)] at hkey
    by_cases hslot : mappingSlot d.hash key = mappingSlot d.hash (hashWithdrawal d.hash
        ⟨w.passer d.nonceSlot, sender, target, value, gasLimit, data⟩)
    · refine ⟨⟨⟨w.passer d.nonceSlot, sender, target, value, gasLimit, data⟩, w.number⟩,
        mem_append_right _ (by simp), ?_, le_refl _⟩
      exact (mappingSlot_injective hd hslot).symm
    · rw [update_of_ne hslot] at hkey
      exact h.passer.mono hmem (le_refl _) key hkey
  case blocks =>
    intro n block hblock
    obtain ⟨hsent, hroot⟩ := h.blocks n block hblock
    exact ⟨hsent.mono hmem (le_refl n), hroot⟩
  case authentic =>
    intro call hcall
    exact (h.authentic call hcall).mono hmem fun _ hp => hp

theorem exec_proposed {config : L2OutputOracle.Config} {s s' : L2OutputOracle.Storage H}
    {tx : L2OutputOracle.Tx H} {events : List (L2OutputOracle.Event H)}
    (h : L2OutputOracle.exec config s tx = .ok (s', events)) (b : Uint256)
    (hroot : (s'.l2Outputs b).outputRoot ≠ 0) :
    s'.l2Outputs b = s.l2Outputs b ∨
      (b, s'.l2Outputs b) ∈ events.filterMap L2OutputOracle.Event.proposal := by
  unfold L2OutputOracle.exec at h
  split at h
  next outputRoot l2BlockNumber l1Blockhash l1BlockNumber _ =>
    simp only [L2OutputOracle.proposeL2Output, bind_eq_ok, pure_eq_ok, Prod.mk.injEq] at h
    obtain ⟨-, -, -, -, -, -, -, -, -, -, -, -, -, -, rfl, rfl⟩ := h
    by_cases heq : b = l2BlockNumber
    · right
      rw [heq]
      simp [L2OutputOracle.Event.proposal]
    · left
      exact update_of_ne heq _ _
  next proposal _ =>
    simp only [L2OutputOracle.deleteL2Output, bind_eq_ok, pure_eq_ok, Prod.mk.injEq] at h
    obtain ⟨-, -, -, -, -, -, previous, -, rfl, -⟩ := h
    by_cases heq : b = s.latestBlockNumber
    · rw [heq] at hroot
      simp [OutputProposal.absent] at hroot
    · left
      exact update_of_ne heq _ _
  next newProposer _ =>
    simp only [L2OutputOracle.changeProposer, bind_eq_ok, pure_eq_ok, Prod.mk.injEq] at h
    obtain ⟨-, -, -, -, -, -, rfl, -⟩ := h
    exact .inl rfl
  next newOwner _ =>
    simp only [L2OutputOracle.transferOwnership, bind_eq_ok, pure_eq_ok, Prod.mk.injEq] at h
    obtain ⟨-, -, -, -, -, -, rfl, -⟩ := h
    exact .inl rfl
  next =>
    simp only [L2OutputOracle.renounceOwnership, bind_eq_ok, pure_eq_ok, Prod.mk.injEq] at h
    obtain ⟨-, -, rfl, -⟩ := h
    exact .inl rfl

theorem Inv.oracleCall (h : Inv d waiting w) (hcall : OracleCall d w w') : Inv d waiting w' := by
  obtain ⟨tx, oracle, events, -, hexec, rfl⟩ := hcall
  refine {h with proposed := ?proposed, authentic := ?authentic}
  case proposed =>
    intro b hroot
    rcases exec_proposed hexec b hroot with heq | hmem
    · rw [heq] at hroot ⊢
      exact mem_append_left _ (h.proposed b hroot)
    · exact mem_append_right _ hmem
  case authentic =>
    intro call hmem
    exact (h.authentic call hmem).mono (fun _ hi => hi) fun _ hp => mem_append_left _ hp

structure Finalized (d : Deployment H) (tx : WithdrawalTransaction) (w : World H)
    (call : TargetCall H) (atCall : World H) : Prop where
  idle : w.l2Sender = DEFAULT_L2_SENDER
  fresh : w.finalizedWithdrawals (hashWithdrawal d.hash tx) = false
  tx_eq : call.tx = tx
  time : call.proposal.timestamp.toNat + d.finalizationPeriodSeconds.toNat < call.timestamp.toNat
  proven : ∃ checkpoint,
    L2OutputOracle.lookupBlockNumber d.oracle call.l2BlockNumber = .ok checkpoint ∧
    w.oracle.l2Outputs checkpoint = call.proposal ∧ call.proposal.outputRoot ≠ 0 ∧
    ∃ outputRootProof withdrawalProof,
      call.proposal.outputRoot = hashOutputRootProof d.hash outputRootProof ∧
      verifyWithdrawalInclusion d (hashWithdrawal d.hash tx)
        outputRootProof.messagePasserStorageRoot withdrawalProof = .ok true
  world : atCall = {w with
    finalizedWithdrawals := Function.update w.finalizedWithdrawals (hashWithdrawal d.hash tx) true
    l2Sender := tx.sender
    calls := w.calls ++ [call]}

variable {atCall : World H}

theorem finalizeWithdrawalTransaction_eq_ok {gasleft l2BlockNumber : Uint256}
    {outputRootProof : OutputRootProof H} {withdrawalProof : Bytes}
    (h : finalizeWithdrawalTransaction d gasleft tx l2BlockNumber outputRootProof withdrawalProof w
      = .ok atCall) : ∃ call, Finalized d tx w call atCall := by
  simp only [finalizeWithdrawalTransaction, L2OutputOracle.getL2Output, isOutputFinalized,
    bind_eq_ok, require_eq_ok, pure_eq_ok, add_eq_ok] at h
  obtain ⟨-, hidle, -, -, proposal, ⟨checkpoint, hlookup, -, hroot, rfl⟩, finalized,
    ⟨deadline, hdeadline, rfl⟩, -, hfinalized, -, hproof, included, hincluded, -, rfl, -, hfresh,
    -, -, -, -, rfl⟩ := h
  have htime : deadline < w.timestamp := of_decide_eq_true hfinalized
  refine ⟨⟨tx, l2BlockNumber, w.oracle.l2Outputs checkpoint, w.timestamp⟩, hidle, hfresh, rfl, ?_,
    ⟨checkpoint, hlookup, rfl, hroot, outputRootProof, withdrawalProof, hproof, hincluded⟩, rfl⟩
  have hlt : deadline.toNat < w.timestamp.toNat := htime
  simp only
  omega

theorem Finalized.authentic (hd : d.Sound) (h : Inv d waiting w) (htrue : TrueOutputs d w)
    (hfinalized : Finalized d tx w call atCall) : call.Authentic d w := by
  obtain ⟨checkpoint, hlookup, houtput, hroot, outputRootProof, withdrawalProof, hproof,
    hincluded⟩ := hfinalized.proven
  rw [← houtput] at hroot hproof
  obtain ⟨block, hblock, heq⟩ := htrue checkpoint hroot
  obtain ⟨hsent, hstorage⟩ := h.blocks _ block hblock
  have hroots := hashOutputRootProof_inj hd (hproof.symm.trans heq)
  rw [hroots, hstorage, verifyWithdrawalInclusion] at hincluded
  obtain ⟨i, hi, hhash, hle⟩ := hsent _ (hd.proofs hincluded)
  refine ⟨checkpoint, hlookup, ⟨i, hi, ?_, hle⟩, ?_, hfinalized.time⟩
  · rw [hfinalized.tx_eq]
    exact hashWithdrawal_inj hd hhash
  · rw [← houtput]
    exact h.proposed checkpoint hroot

theorem Inv.finalize (hd : d.Sound) (h : Inv d waiting w) (htrue : TrueOutputs d w)
    (hfinalized : Finalized d tx w call atCall) : Inv d (tx :: waiting) atCall := by
  have hauthentic := hfinalized.authentic hd h htrue
  have hworld := hfinalized.world
  subst hworld
  refine {h with
    once := ?once, finalized := ?finalized, authentic := ?authentic, l2Sender := rfl,
    nested := ?nested}
  case once =>
    simp only [map_append, map_cons, map_nil, hfinalized.tx_eq]
    refine Nodup.append h.once (by simp) ?_
    intro key hkey hsingle
    rw [mem_singleton.mp hsingle] at hkey
    obtain ⟨other, hother, hhash⟩ := mem_map.mp hkey
    have hmarked := h.finalized other hother
    rw [hhash, hfinalized.fresh] at hmarked
    cases hmarked
  case finalized =>
    intro other hother
    simp only
    rcases mem_append.mp hother with hold | hnew
    · by_cases heq : hashWithdrawal d.hash other.tx = hashWithdrawal d.hash tx
      · rw [heq, update_self]
      · rw [update_of_ne heq]
        exact h.finalized other hold
    · rw [mem_singleton.mp hnew, hfinalized.tx_eq, update_self]
  case authentic =>
    intro other hother
    rcases mem_append.mp hother with hold | hnew
    · exact h.authentic other hold
    · rw [mem_singleton.mp hnew]
      exact hauthentic
  case nested =>
    intro other hother
    -- The guard was passed, so the innermost withdrawal so far has the default initiator.
    have hguard := h.l2Sender.symm.trans hfinalized.idle
    cases waiting with
    | nil => simp at hother
    | cons =>
      rcases mem_cons.mp hother with rfl | hrest
      · exact hguard
      · exact h.nested other hrest

theorem portalContract_keeps (hd : d.Sound) : (portalContract d).Keeps (TrueOutputs d) (Inv d) := by
  constructor
  case idle =>
    intro w w' _ h hidle
    cases hidle with
    | tick => exact {h with}
    | initiateWithdrawal sender value target gasLimit data =>
      exact h.initiate hd sender value target gasLimit data
    | sealBlock version stateRoot latestBlockhash =>
      exact h.sealBlock version stateRoot latestBlockhash
  case act => exact fun _ h hcall => h.oracleCall hcall
  case call =>
    rintro ks tx w atCall w' htrue h ⟨rfl, _, _, _, _, hok⟩
    obtain ⟨call, hfinalized⟩ := finalizeWithdrawalTransaction_eq_ok hok
    exact h.finalize hd htrue hfinalized
  case returned =>
    rintro ks tx w w' h rfl
    exact h.reset
  case failed =>
    rintro ks tx w atCall inside w' htrue h ⟨rfl, _, _, _, _, hok⟩ rfl
    obtain ⟨call, hfinalized⟩ := finalizeWithdrawalTransaction_eq_ok hok
    exact (h.finalize hd htrue hfinalized).reset

/-- In every run with true outputs: each withdrawal hash has at most one target call; every target
call is authentic; `l2Sender` is the initiator of the innermost withdrawal in progress, where
only withdrawals of the default initiator do not exclude others; and when none of these is in
progress, at most one withdrawal is. -/
theorem withdrawals_authentic (hd : d.Sound) {init : World H} (hinit : Initial d init)
    (htrue : TrueOutputs d init) {s : State (World H) WithdrawalTransaction}
    (h : Reachable (portalContract d) (TrueOutputs d) init s) :
    (s.world.calls.map fun call => hashWithdrawal d.hash call.tx).Nodup ∧
      (∀ call ∈ s.world.calls, call.Authentic d s.world) ∧
      s.world.l2Sender = initiatorOf s.waiting ∧
      (∀ tx ∈ s.waiting.tail, tx.sender = DEFAULT_L2_SENDER) ∧
      ((∀ tx ∈ s.waiting, tx.sender ≠ DEFAULT_L2_SENDER) →
        ∀ tx ∈ s.waiting, s.waiting = [tx] ∧ s.world.l2Sender = tx.sender) := by
  have hinv := h.invariant (portalContract_keeps hd) htrue hinit.inv
  refine ⟨hinv.once, hinv.authentic, hinv.l2Sender, hinv.nested, fun hdefault => ?_⟩
  have hnested := hinv.nested
  have hsender := hinv.l2Sender
  rcases hwaiting : s.waiting with _ | ⟨tx, _ | ⟨tx', rest⟩⟩
  · simp
  · rw [hwaiting] at hsender
    simpa [initiatorOf] using hsender
  · rw [hwaiting] at hnested hdefault
    exact absurd (hnested tx' mem_cons_self) (hdefault tx' (mem_cons_of_mem _ mem_cons_self))

end Invariant

structure Digest where
  bytes : Bytes
  deriving DecidableEq

instance : Zero Digest := ⟨⟨[]⟩⟩

/-- Hashes that hold the hashed bytes, and bytes of hashes that begin with their length. -/
def openHash : Hashing Digest where
  keccak b := ⟨1 :: b⟩
  toBytes h := List.replicate h.bytes.length 1 ++ 0 :: h.bytes

theorem openHash_toBytes {a b : Digest} {x y : Bytes}
    (h : openHash.toBytes a ++ x = openHash.toBytes b ++ y) : a = b ∧ x = y := by
  obtain ⟨a⟩ := a
  obtain ⟨b⟩ := b
  simp only [openHash, append_assoc, cons_append] at h
  have hlen : a.length = b.length := by
    have hcount := congrArg (fun l => (l.takeWhile (· = 1)).length) h
    simpa [takeWhile_append, takeWhile_replicate] using hcount
  rw [hlen] at h
  have hrest := (cons.inj (append_cancel_left h)).2
  obtain ⟨rfl, rfl⟩ := append_inj hrest hlen
  exact ⟨rfl, rfl⟩

def defaultWithdrawal : WithdrawalTransaction := ⟨0, DEFAULT_L2_SENDER, 0x31, 0, 100000, []⟩

def otherWithdrawal : WithdrawalTransaction := ⟨1, 0x22, 0x32, 5, 2000000, []⟩

def slotOf (tx : WithdrawalTransaction) : Digest :=
  mappingSlot openHash (hashWithdrawal openHash tx)

def openDeployment : Deployment Digest where
  hash := openHash
  nonceSlot := ⟨[0]⟩
  storageRoot storage := ⟨[if storage (slotOf defaultWithdrawal) = 1 then 1 else 0,
    if storage (slotOf otherWithdrawal) = 1 then 1 else 0]⟩
  verifyInclusionProof key _ _ root := .ok (decide
    ((key = openHash.toBytes (slotOf defaultWithdrawal) ∧ root.bytes[0]? = some 1) ∨
      (key = openHash.toBytes (slotOf otherWithdrawal) ∧ root.bytes[1]? = some 1)))
  oracle := {
    submissionInterval := 1
    startingBlockNumber := 0
    startingTimestamp := 0
    l2BlockTime := 2 }
  portal := 0x99
  finalizationPeriodSeconds := 100

theorem openDeployment_sound : openDeployment.Sound := by
  have hkeys : ∀ {a b : Digest}, openHash.toBytes a = openHash.toBytes b → a = b := by
    intro a b h
    exact (openHash_toBytes (congrArg (· ++ []) h)).1
  constructor
  case keccak =>
    intro a b h
    simpa [openDeployment, openHash] using h
  case toBytes => exact openHash_toBytes
  case nonceSlot =>
    intro key h
    simp [openDeployment, mappingSlot, openHash] at h
  case proofs =>
    intro key proof storage h
    rcases of_decide_eq_true (Except.ok.inj h) with ⟨hkey, hone⟩ | ⟨hkey, hone⟩
    · rw [hkeys hkey]
      simpa [openDeployment] using hone
    · rw [hkeys hkey]
      simpa [openDeployment] using hone

def genesisBlock : L2Block Digest where
  output := ⟨0, 0, openDeployment.storageRoot fun _ => 0, 0⟩
  passer := fun _ => 0

def genesisProposal : OutputProposal Digest :=
  ⟨hashOutputRootProof openHash genesisBlock.output, 1000⟩

def genesisWorld : World Digest where
  number := 1
  passer := fun _ => 0
  blocks := Function.update (fun _ => none) 0 (some genesisBlock)
  timestamp := 1000
  oracle := ⟨3, 2, 0, Function.update (fun _ => .absent) 0 genesisProposal⟩
  l2Sender := DEFAULT_L2_SENDER
  finalizedWithdrawals := fun _ => false
  initiated := []
  proposed := [(0, genesisProposal)]
  calls := []

def sentWorld : World Digest :=
  initiateWithdrawal openDeployment 0x22 5 0x32 2000000 []
    (initiateWithdrawal openDeployment DEFAULT_L2_SENDER 0 0x31 100000 [] genesisWorld)

def sealedWorld : World Digest := sealBlock openDeployment 0 0 0 sentWorld

def sealedOutput : OutputRootProof Digest := ⟨0, 0, ⟨[1, 1]⟩, 0⟩

def sealedProposal : OutputProposal Digest := ⟨hashOutputRootProof openHash sealedOutput, 1000⟩

def proposedWorld : World Digest :=
  {sealedWorld with
    oracle := ⟨3, 2, 1, Function.update sealedWorld.oracle.l2Outputs 1 sealedProposal⟩
    proposed := [(0, genesisProposal), (1, sealedProposal)]}

def finalWorld : World Digest := {proposedWorld with timestamp := 2000}

/-- The world in which the target of the withdrawal runs, called from `w`. -/
def called (tx : WithdrawalTransaction) (w : World Digest) : World Digest :=
  {w with
    finalizedWithdrawals := Function.update w.finalizedWithdrawals (hashWithdrawal openHash tx) true
    l2Sender := tx.sender
    calls := w.calls ++ [⟨tx, 1, sealedProposal, 2000⟩]}

def defaultCalled : World Digest := called defaultWithdrawal finalWorld

theorem genesisWorld_absent {b : Uint256} (hb : b ≠ 0) :
    genesisWorld.oracle.l2Outputs b = .absent := by
  simp only [genesisWorld]
  rw [update_of_ne hb]

theorem initial_genesisWorld : Initial openDeployment genesisWorld := by
  constructor
  case passer => rfl
  case blocks =>
    intro n block hblock
    by_cases hn : n = 0
    · rw [hn] at hblock
      cases hblock
      exact ⟨rfl, rfl⟩
    · simp [genesisWorld, update_of_ne hn] at hblock
  case proposed =>
    intro b hroot
    by_cases hb : b = 0
    · rw [hb]
      exact mem_cons_self
    · rw [genesisWorld_absent hb] at hroot
      exact absurd rfl hroot
  case l2Sender => rfl
  case calls => rfl

variable {w : World Digest}

theorem trueOutputs_of_genesis (hblocks : w.blocks 0 = some genesisBlock)
    (horacle : w.oracle.l2Outputs = genesisWorld.oracle.l2Outputs) :
    TrueOutputs openDeployment w := by
  intro b hroot
  rw [horacle] at hroot ⊢
  by_cases hb : b = 0
  · rw [hb]
    exact ⟨genesisBlock, hblocks, rfl⟩
  · rw [genesisWorld_absent hb] at hroot
    exact absurd rfl hroot

theorem sealedWorld_blocks : sealedWorld.blocks 1 = some ⟨sealedOutput, sentWorld.passer⟩ := by
  have hroot : openDeployment.storageRoot sentWorld.passer = ⟨[1, 1]⟩ := by decide +kernel
  show some (L2Block.mk ⟨0, 0, openDeployment.storageRoot sentWorld.passer, 0⟩ _) = _
  rw [hroot]
  rfl

theorem trueOutputs_of_proposed (hblocks : w.blocks = sealedWorld.blocks)
    (horacle : w.oracle.l2Outputs = proposedWorld.oracle.l2Outputs) :
    TrueOutputs openDeployment w := by
  intro b hroot
  rw [horacle] at hroot ⊢
  rw [hblocks]
  by_cases hone : b = 1
  · rw [hone]
    exact ⟨_, sealedWorld_blocks, rfl⟩
  · have hold : proposedWorld.oracle.l2Outputs b = genesisWorld.oracle.l2Outputs b :=
      update_of_ne hone _ _
    rw [hold] at hroot ⊢
    exact trueOutputs_of_genesis (w := {genesisWorld with blocks := sealedWorld.blocks}) rfl rfl b
      hroot

abbrev Reaches : State (World Digest) WithdrawalTransaction → Prop :=
  Reachable (portalContract openDeployment) (TrueOutputs openDeployment) genesisWorld

theorem reachable_finalWorld : Reaches ⟨finalWorld, [.code finalWorld]⟩ := by
  have hproposed : OracleCall openDeployment sealedWorld proposedWorld :=
    ⟨⟨⟨2, 1000, fun _ => 0⟩, .proposeL2Output sealedProposal.outputRoot 1 0 0⟩,
      proposedWorld.oracle, [.outputProposed sealedProposal.outputRoot 1000 1], rfl, rfl, rfl⟩
  have hsent : Reaches ⟨sentWorld, []⟩ :=
    (Relation.ReflTransGen.refl.tail
      ⟨.idle (.initiateWithdrawal DEFAULT_L2_SENDER 0 0x31 100000 []),
        trueOutputs_of_genesis rfl rfl⟩).tail
      ⟨.idle (.initiateWithdrawal 0x22 5 0x32 2000000 []), trueOutputs_of_genesis rfl rfl⟩
  have hsealed : Reaches ⟨sealedWorld, [.code sealedWorld]⟩ :=
    (hsent.tail ⟨.idle (.sealBlock 0 0 0), trueOutputs_of_genesis rfl rfl⟩).tail
      ⟨.enter, trueOutputs_of_genesis rfl rfl⟩
  have htick : Idle openDeployment proposedWorld finalWorld := .tick (by decide)
  exact (((hsealed.tail ⟨.act hproposed, trueOutputs_of_proposed rfl rfl⟩).tail
    ⟨.leave, trueOutputs_of_proposed rfl rfl⟩).tail
    ⟨.idle htick, trueOutputs_of_proposed rfl rfl⟩).tail ⟨.enter, trueOutputs_of_proposed rfl rfl⟩

set_option maxRecDepth 10000 in
theorem finalize_other : finalizeWithdrawalTransaction openDeployment 3000000
    otherWithdrawal 1 sealedOutput [] finalWorld = .ok (called otherWithdrawal finalWorld) := by rfl

set_option maxRecDepth 10000 in
theorem finalize_default : finalizeWithdrawalTransaction openDeployment 3000000
    defaultWithdrawal 1 sealedOutput [] finalWorld = .ok defaultCalled := by rfl

set_option maxRecDepth 10000 in
theorem finalize_inner : finalizeWithdrawalTransaction openDeployment 3000000 otherWithdrawal 1
    sealedOutput [] defaultCalled = .ok (called otherWithdrawal defaultCalled) := by rfl

theorem withdrawals_authentic_sample :
    (called otherWithdrawal finalWorld).calls.length = 1 ∧
      (∀ call ∈ (called otherWithdrawal finalWorld).calls,
        call.Authentic openDeployment (called otherWithdrawal finalWorld)) ∧
      (called otherWithdrawal finalWorld).l2Sender = initiatorOf [otherWithdrawal] := by
  obtain ⟨-, hauthentic, hsender, -⟩ := withdrawals_authentic openDeployment_sound
    initial_genesisWorld (trueOutputs_of_genesis rfl rfl) (reachable_finalWorld.tail
      ⟨.call ⟨rfl, 3000000, 1, sealedOutput, [], finalize_other⟩, trueOutputs_of_proposed rfl rfl⟩)
  exact ⟨rfl, hauthentic, hsender⟩

/-- While the target of a withdrawal by the default sender runs, another withdrawal is finalized,
and `l2Sender` is its initiator. -/
theorem default_initiator_not_guarded :
    openDeployment.Sound ∧ Initial openDeployment genesisWorld ∧
      TrueOutputs openDeployment genesisWorld ∧
      ∃ s, Reaches s ∧ defaultWithdrawal ∈ s.waiting ∧
        s.world.l2Sender ≠ defaultWithdrawal.sender := by
  have houter := reachable_finalWorld.tail
    ⟨.call ⟨rfl, 3000000, 1, sealedOutput, [], finalize_default⟩, trueOutputs_of_proposed rfl rfl⟩
  have hinner := houter.tail
    ⟨.call ⟨rfl, 3000000, 1, sealedOutput, [], finalize_inner⟩, trueOutputs_of_proposed rfl rfl⟩
  exact ⟨openDeployment_sound, initial_genesisWorld, trueOutputs_of_genesis rfl rfl, _, hinner,
    by decide, by decide⟩

end Portal
