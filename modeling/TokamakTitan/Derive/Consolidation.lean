import TokamakTitan.Library.Walk
import TokamakTitan.Derive.DepositsOnce

/-! The safe chain and the payloads that arrive by gossip: a block of the unsafe chain becomes safe
when it agrees with the attributes, and otherwise one is built from them. -/
namespace Derive
open Checked List

structure BlockInputs where
  parentHash : Hash
  feeRecipient : Address
  prevRandao : Hash
  gasLimit : Uint64
  timestamp : Uint64
  extraData : Bytes
  transactions : List Bytes
  deriving DecidableEq

def ExecutionPayload.inputs (payload : ExecutionPayload) : BlockInputs where
  parentHash := payload.parentHash
  feeRecipient := payload.feeRecipient
  prevRandao := payload.prevRandao
  gasLimit := payload.gasLimit
  timestamp := payload.timestamp
  extraData := payload.extraData
  transactions := payload.transactions

structure Executor where
  valid : ExecutionPayload → Prop
  gasLimit : Hash → Uint64
  extraData : Hash → Bytes
  determined : ∀ {a b}, valid a → valid b → a.inputs = b.inputs → a = b

namespace Executor

variable (x : Executor)

def requested (parent : Hash) (attrs : PayloadAttributes) : BlockInputs where
  parentHash := parent
  feeRecipient := attrs.suggestedFeeRecipient
  prevRandao := attrs.prevRandao
  gasLimit := x.gasLimit parent
  timestamp := attrs.timestamp
  extraData := x.extraData parent
  transactions := attrs.transactions

def Builds (parent : Hash) (attrs : PayloadAttributes) (payload : ExecutionPayload) : Prop :=
  x.valid payload ∧ payload.inputs = x.requested parent attrs

end Executor

def PayloadAttributes.strip (attrs : PayloadAttributes) : PayloadAttributes :=
  { attrs with transactions := attrs.transactions.filter isDeposit }

/-- The block that is forced from the attributes, if need be without the transactions of the
sequencer. -/
inductive Executor.Forces (x : Executor) (parent : Hash) (attrs : PayloadAttributes)
    (payload : ExecutionPayload) : Prop
  | whole (hbuilds : x.Builds parent attrs payload)
  | stripped (hnone : ∀ other, ¬ x.Builds parent attrs other)
      (hbuilds : x.Builds parent attrs.strip payload)

/-- A call may fail at any time, but what the engine says of a block is so, and it builds the block
that it is asked for. -/
structure EngineAnswers.Runs (eng : EngineAnswers) (x : Executor) : Prop where
  built : ∀ {fc attrs fcRes id payload}, eng.forkchoiceUpdate fc (some attrs) = .ok fcRes →
    fcRes.payloadID = some id → eng.getPayload id = .ok payload → attrs.noTxPool = true →
    payload.inputs = x.requested fc.headBlockHash attrs ∧
      ∀ {other}, x.Builds fc.headBlockHash attrs other → other = payload
  refused : ∀ {fc attrs err payload},
    eng.forkchoiceUpdate fc (some attrs) = .error (.input invalidPayloadAttributes err) →
    ¬ x.Builds fc.headBlockHash attrs payload
  badParent : ∀ {fc attrs fcRes payload}, eng.forkchoiceUpdate fc (some attrs) = .ok fcRes →
    fcRes.payloadStatus = .invalid ∨ fcRes.payloadStatus = .invalidBlockHash →
    ¬ x.Builds fc.headBlockHash attrs payload
  executed : ∀ {payload}, eng.newPayload payload = .ok .valid → x.valid payload
  rejected : ∀ {payload},
    eng.newPayload payload = .ok .invalid ∨ eng.newPayload payload = .ok .invalidBlockHash →
    ¬ x.valid payload
  canonical : ∀ {payload fc}, eng.newPayload payload = .ok .valid →
    fc.headBlockHash = payload.blockHash →
    (∀ err, eng.forkchoiceUpdate fc none ≠ .error (.input invalidForkchoiceState err)) ∧
      ∀ fcRes, eng.forkchoiceUpdate fc none = .ok fcRes → fcRes.payloadStatus = .valid
  found : ∀ {number payload}, eng.payloadByNumber number = .ok payload → x.valid payload

def DepositsFirst (txs : List Bytes) : Prop :=
  ∃ first deposits rest, txs = first :: (deposits ++ rest) ∧ isDeposit first = true ∧
    (∀ tx ∈ deposits, isDeposit tx = true) ∧ SequencerTxs rest

structure PayloadAttributes.WellFormed (attrs : PayloadAttributes) : Prop where
  noTxPool : attrs.noTxPool = true
  depositsFirst : DepositsFirst attrs.transactions

section Sanity

variable {txs deposits rest : List Bytes} {tx : Bytes}

theorem isDepositTx_of_isDeposit (h : isDeposit tx = true) : isDepositTx tx = .ok true := by
  cases tx <;> simp_all [isDepositTx, isDeposit]

theorem isDepositTx_of_not_isDeposit (hne : tx ≠ []) (h : isDeposit tx = false) :
    isDepositTx tx = .ok false := by
  cases tx <;> simp_all [isDepositTx, isDeposit]

theorem lastDepositFrom_append (hdeposits : ∀ tx ∈ deposits, isDeposit tx = true)
    (hrest : SequencerTxs rest) (last : ℕ) :
    lastDepositFrom last (last + 1) (deposits ++ rest) = .ok (last + deposits.length) := by
  induction deposits generalizing last with
  | nil =>
    cases rest with
    | nil => rfl
    | cons tx =>
      obtain ⟨hne, hnot⟩ := hrest tx (by simp)
      simp [lastDepositFrom, isDepositTx_of_not_isDeposit hne hnot]
  | cons tx deposits ih =>
    obtain ⟨htx, hdeposits⟩ := forall_mem_cons.mp hdeposits
    rw [cons_append, lastDepositFrom, isDepositTx_of_isDeposit htx]
    show lastDepositFrom (last + 1) (last + 1 + 1) (deposits ++ rest) = _
    rw [ih hdeposits, length_cons, Nat.add_assoc, Nat.add_comm 1]

theorem noDepositFrom_sequencerTxs (h : SequencerTxs rest) (last i : ℕ) :
    noDepositFrom last i rest = .ok () := by
  induction rest generalizing i with
  | nil => rfl
  | cons tx rest ih =>
    obtain ⟨hne, hnot⟩ := h tx (by simp)
    rw [noDepositFrom, isDepositTx_of_not_isDeposit hne hnot]
    exact ih (fun other hother => h other (mem_cons_of_mem _ hother)) (i + 1)

variable {payload : ExecutionPayload}

theorem DepositsFirst.sane (h : DepositsFirst payload.transactions) :
    sanityCheckPayload payload = .ok () := by
  obtain ⟨first, deposits, rest, htxs, hfirst, hdeposits, hrest⟩ := h
  have hlast : lastDeposit payload.transactions = .ok deposits.length := by
    rw [htxs, lastDeposit, lastDepositFrom, isDepositTx_of_isDeposit hfirst]
    show lastDepositFrom 0 (0 + 1) (deposits ++ rest) = _
    rw [lastDepositFrom_append hdeposits hrest, Nat.zero_add]
  have hafter : payload.transactions.drop (deposits.length + 1) = rest := by
    rw [htxs, drop_succ_cons, drop_left]
  cases first with
  | nil => cases hfirst
  | cons type =>
    have htype : type = depositTxType := by simpa [isDeposit] using hfirst
    unfold sanityCheckPayload
    rw [hlast, htxs]
    simp only [htype, ne_eq, not_true_eq_false, if_false]
    rw [← htype, ← htxs, hafter, noDepositFrom_sequencerTxs hrest]

theorem noDepositFrom_eq_ok {last i : ℕ} (h : noDepositFrom last i rest = .ok ()) :
    SequencerTxs rest := by
  induction rest generalizing i with
  | nil => simp [SequencerTxs]
  | cons tx rest ih =>
    rw [noDepositFrom] at h
    split at h
    next => cases h
    next => cases h
    next hother =>
      have htx : tx ≠ [] ∧ isDeposit tx = false := by
        cases tx <;> simp_all [isDepositTx, isDeposit]
      exact forall_mem_cons.mpr ⟨htx, ih h⟩

theorem lastDepositFrom_eq_ok {last m : ℕ} (h : lastDepositFrom last (last + 1) txs = .ok m) :
    ∃ deposits rest, txs = deposits ++ rest ∧ (∀ tx ∈ deposits, isDeposit tx = true) ∧
      m = last + deposits.length := by
  induction txs generalizing last with
  | nil =>
    cases h
    exact ⟨[], [], rfl, by simp, rfl⟩
  | cons tx txs ih =>
    rw [lastDepositFrom] at h
    split at h
    next => cases h
    next hdeposit =>
      obtain ⟨deposits, rest, rfl, hdeposits, rfl⟩ := ih h
      have htx : isDeposit tx = true := by
        cases tx <;> simp_all [isDepositTx, isDeposit]
      refine ⟨tx :: deposits, rest, rfl, forall_mem_cons.mpr ⟨htx, hdeposits⟩, ?_⟩
      rw [length_cons]
      omega
    next =>
      cases h
      exact ⟨[], tx :: txs, rfl, by simp, rfl⟩

theorem sanityCheckPayload_eq_ok (h : sanityCheckPayload payload = .ok ()) :
    DepositsFirst payload.transactions := by
  unfold sanityCheckPayload at h
  split at h
  next => cases h
  next => cases h
  next type bytes txs htxs =>
    split at h
    next => cases h
    next htype =>
      have hfirst : isDeposit (type :: bytes) = true := by simpa [isDeposit] using htype
      split at h
      next => cases h
      next last hlast =>
        rw [htxs, lastDeposit, lastDepositFrom, isDepositTx_of_isDeposit hfirst] at hlast
        obtain ⟨deposits, rest, rfl, hdeposits, hcount⟩ := lastDepositFrom_eq_ok hlast
        split at h
        next => cases h
        next hafter =>
          rw [htxs, hcount, Nat.zero_add, drop_succ_cons, drop_left] at hafter
          exact ⟨type :: bytes, deposits, rest, htxs, hfirst, hdeposits, noDepositFrom_eq_ok hafter⟩

/-- The check accepts just the payloads whose deposits come first, and it crashes on just those that
start with an empty transaction. -/
theorem sanityCheckPayload_iff (payload : ExecutionPayload) :
    (sanityCheckPayload payload = .ok () ↔ DepositsFirst payload.transactions) ∧
    (sanityCheckPayload payload = .error .panic ↔ payload.transactions.head? = some []) := by
  refine ⟨⟨sanityCheckPayload_eq_ok, DepositsFirst.sane⟩, ?_⟩
  unfold sanityCheckPayload
  cases payload.transactions with
  | nil => simp
  | cons first =>
    cases first with
    | nil => simp
    | cons =>
      simp only [head?_cons, Option.some.injEq, reduceCtorEq, iff_false]
      split
      · simp
      · split
        · simp
        · split <;> simp

theorem empty_transaction_panics :
    sanityCheckPayload ⟨0, 0, 0, 1, 0, 0, [], 0, [[], [0x7e]]⟩ = .error .panic := rfl

theorem DepositsFirst.strip (h : DepositsFirst txs) : DepositsFirst (txs.filter isDeposit) := by
  obtain ⟨first, deposits, rest, rfl, hfirst, hdeposits, hrest⟩ := h
  refine ⟨first, deposits, [], ?_, hfirst, hdeposits, by simp [SequencerTxs]⟩
  rw [filter_cons_of_pos hfirst, filter_append, filter_eq_self.mpr hdeposits,
    hrest.filter_isDeposit]

variable {attrs : PayloadAttributes}

theorem PayloadAttributes.WellFormed.strip (h : attrs.WellFormed) : attrs.strip.WellFormed :=
  ⟨h.noTxPool, h.depositsFirst.strip⟩

theorem wellFormed_createNextAttributes {keccak : Bytes → Hash} {codec : TxCodec} {cfg : Config}
    {dl : L1Answers} {l1 : L1Chain} {batch : BatchData} {parent : L2BlockRef} (hl1 : dl.From l1)
    (hbatch : SequencerTxs batch.transactions)
    (h : createNextAttributes keccak codec cfg dl batch parent = .ok attrs) : attrs.WellFormed := by
  obtain ⟨hpool, origin, seqNumber, deposits, hcarries⟩ :=
    createNextAttributes_carries hl1 hbatch h
  obtain ⟨l1InfoTx, rest, hinfo, htxs, hrest⟩ := hcarries.txs_eq
  exact ⟨hpool, l1InfoTx, deposits, rest, htxs, isDeposit_l1InfoDepositBytes hinfo,
    hcarries.epoch.isDeposit, hrest⟩

end Sanity

section Engine

variable {x : Executor} {eng : EngineAnswers} {fc : ForkchoiceState} {attrs : PayloadAttributes}
  {err : String} {parent : Hash} {a b : ExecutionPayload}

theorem Executor.Builds.unique (ha : x.Builds parent attrs a) (hb : x.Builds parent attrs b) :
    a = b :=
  x.determined ha.1 hb.1 (ha.2.trans hb.2.symm)

theorem Executor.Forces.unique (ha : x.Forces parent attrs a) (hb : x.Forces parent attrs b) :
    a = b := by
  cases ha with
  | whole ha =>
    cases hb with
    | whole hb => exact ha.unique hb
    | stripped hnone => exact absurd ha (hnone a)
  | stripped hnone ha =>
    cases hb with
    | whole hb => exact absurd hb (hnone b)
    | stripped _ hb => exact ha.unique hb

theorem startPayload_eq_payload (h : startPayload eng fc attrs = .error (.payload err)) :
    (∃ err, eng.forkchoiceUpdate fc (some attrs) = .error (.input invalidPayloadAttributes err)) ∨
    ∃ fcRes, eng.forkchoiceUpdate fc (some attrs) = .ok fcRes ∧
      (fcRes.payloadStatus = .invalid ∨ fcRes.payloadStatus = .invalidBlockHash) := by
  unfold startPayload at h
  split at h
  next => cases h
  next code err' hfc =>
    split at h
    next => cases h
    next =>
      split at h
      next hcode => exact .inl ⟨err', hcode ▸ hfc⟩
      next => cases h
  next fcRes hfc =>
    split at h
    next hstatus => exact .inr ⟨fcRes, hfc, .inl hstatus⟩
    next hstatus => exact .inr ⟨fcRes, hfc, .inr hstatus⟩
    next => split at h <;> cases h
    next => cases h

variable {payload : ExecutionPayload}

theorem executePayload_eq_payload (h : executePayload eng payload = .error (.payload err)) :
    eng.newPayload payload = .ok .invalid ∨ eng.newPayload payload = .ok .invalidBlockHash := by
  unfold executePayload at h
  split at h
  next => cases h
  next => cases h
  next hstatus => exact .inl hstatus
  next hstatus => exact .inr hstatus
  next => cases h

theorem makeCanonical_eq_payload (h : makeCanonical eng fc = .error (.payload err)) :
    (∃ err, eng.forkchoiceUpdate fc none = .error (.input invalidForkchoiceState err)) ∨
    ∃ fcRes, eng.forkchoiceUpdate fc none = .ok fcRes ∧ fcRes.payloadStatus ≠ .valid := by
  unfold makeCanonical at h
  split at h
  next => cases h
  next code err' hfc =>
    split at h
    next hcode => exact .inl ⟨err', hcode ▸ hfc⟩
    next => cases h
  next fcRes hfc =>
    split at h
    next => cases h
    next hstatus => exact .inr ⟨fcRes, hfc, hstatus⟩

theorem EngineAnswers.Runs.not_builds (h : eng.Runs x) (hattrs : attrs.WellFormed)
    (hfailed : insertHeadBlock eng fc attrs true = .error (.payload err))
    (other : ExecutionPayload) : ¬ x.Builds fc.headBlockHash attrs other := by
  unfold insertHeadBlock at hfailed
  rcases bind_eq_error.mp hfailed with hstart | ⟨id, hstart, hfailed⟩
  · rcases startPayload_eq_payload hstart with ⟨err, hfc⟩ | ⟨fcRes, hfc, hstatus⟩
    · exact h.refused hfc
    · exact h.badParent hfc hstatus
  obtain ⟨fcRes, hfc, -, hid⟩ := startPayload_eq_ok hstart
  rcases bind_eq_error.mp hfailed with hget | ⟨payload, hget, hfailed⟩
  · unfold retrievePayload at hget
    split at hget <;> cases hget
  obtain ⟨hinputs, honly⟩ := h.built hfc hid (retrievePayload_eq_ok hget) hattrs.noTxPool
  have htxs : payload.transactions = attrs.transactions :=
    congrArg BlockInputs.transactions hinputs
  rcases bind_eq_error.mp hfailed with hinsane | ⟨⟨⟩, -, hfailed⟩
  · have hfirst : DepositsFirst payload.transactions := htxs ▸ hattrs.depositsFirst
    rw [hfirst.sane] at hinsane
    cases hinsane
  rcases bind_eq_error.mp hfailed with hinvalid | ⟨⟨⟩, hexec, hfailed⟩
  · intro hbuilds
    rw [honly hbuilds] at hbuilds
    exact h.rejected (executePayload_eq_payload hinvalid) hbuilds.1
  rcases bind_eq_error.mp hfailed with hlost | ⟨⟨⟩, -, hfailed⟩
  · have hvalid := executePayload_eq_ok hexec
    rcases makeCanonical_eq_payload hlost with ⟨err, hfc⟩ | ⟨fcRes, hfc, hstatus⟩
    · exact absurd hfc ((h.canonical hvalid rfl).1 err)
    · exact absurd ((h.canonical hvalid rfl).2 fcRes hfc) hstatus
  · cases hfailed

structure StandardBlock (x : Executor) (parent : Hash) (attrs : PayloadAttributes)
    (payload : ExecutionPayload) : Prop where
  feeRecipient : payload.feeRecipient = attrs.suggestedFeeRecipient
  gasLimit : payload.gasLimit = x.gasLimit parent
  extraData : payload.extraData = x.extraData parent

theorem Executor.Builds.standard (h : x.Builds parent attrs payload) :
    StandardBlock x parent attrs payload :=
  ⟨congrArg BlockInputs.feeRecipient h.2, congrArg BlockInputs.gasLimit h.2,
    congrArg BlockInputs.extraData h.2⟩

theorem Executor.Forces.standard (h : x.Forces parent attrs payload) :
    StandardBlock x parent attrs payload := by
  cases h with
  | whole hbuilds => exact hbuilds.standard
  | stripped _ hbuilds =>
    obtain ⟨hfee, hgas, hextra⟩ := hbuilds.standard
    exact ⟨hfee, hgas, hextra⟩

theorem Source.builds {parent : L2BlockRef} {payload : ExecutionPayload}
    (hsource : Source eng parent attrs payload) (h : eng.Runs x) (hattrs : attrs.WellFormed)
    (hstandard : StandardBlock x parent.hash attrs payload) :
    x.Builds parent.hash attrs payload := by
  cases hsource with
  | built hparent hstart hid hget hexec =>
    refine ⟨h.executed hexec, ?_⟩
    rw [← hparent]
    exact (h.built hstart hid hget hattrs.noTxPool).1
  | found hget hmatch =>
    obtain ⟨hparent, htime, hrandao, htxs⟩ := attributesMatchBlock_eq_ok hmatch
    refine ⟨h.found hget, ?_⟩
    simp only [ExecutionPayload.inputs, Executor.requested, ← hparent, ← htime, ← hrandao, ← htxs,
      hstandard.feeRecipient, hstandard.gasLimit, hstandard.extraData]

end Engine

structure GossipRun where
  queue : EngineQueue
  safeBlocks : List SafeBlock

namespace GossipRun

section Runs

variable (codec : TxCodec) (cfg : Config) (x : Executor) (feed : ℕ → PayloadAttributes)

def start (queue : EngineQueue) : GossipRun where
  queue := { queue with safeAttributes := [] }
  safeBlocks := []

def step (eng : EngineAnswers) (origin : L1BlockRef) (next : Except Error PayloadAttributes)
    (s : GossipRun) : GossipRun :=
  let out := s.queue.step codec cfg eng origin next
  { queue := out.queue, safeBlocks := recordSafe s.queue s.safeBlocks out }

/-- A step of the engine queue, which is fed the next attributes of `feed` on demand, or a call from
outside: payloads that arrive, a new unsafe head, or a finality signal. -/
inductive Step (s : GossipRun) : GossipRun → Prop
  | step (eng : EngineAnswers) (origin : L1BlockRef) (next : Except Error PayloadAttributes)
      (heng : eng.Runs x) (hnext : ∀ attrs, next = .ok attrs → attrs = feed s.safeBlocks.length) :
      Step s (s.step codec cfg eng origin next)
  | addUnsafePayload (payloads : List ExecutionPayload) :
      Step s { s with queue := { s.queue with unsafePayloads := payloads } }
  | setUnsafeHead (head : L2BlockRef) : Step s { s with queue := s.queue.setUnsafeHead head }
  | finalize (l1Origin : BlockID) : Step s { s with queue := s.queue.finalize l1Origin }

def heads (s : GossipRun) : List L2BlockRef := s.safeBlocks.map SafeBlock.ref

def AsForced (s : GossipRun) : Prop :=
  ∀ i block, s.safeBlocks[i]? = some block → x.Forces block.parent.hash (feed i) block.payload

def Standard (s : GossipRun) : Prop :=
  ∀ i block, s.safeBlocks[i]? = some block →
    StandardBlock x block.parent.hash (feed i) block.payload

def Follows (i : ℕ) (head next : L2BlockRef) : Prop :=
  ∃ payload, x.Forces head.hash (feed i) payload ∧
    payloadToBlockRef codec payload cfg.genesis = .ok next

/-- The attributes in the queue are those of the next block, whole or stripped. -/
def Pending (head : L2BlockRef) (attrs : PayloadAttributes) (queued : List PayloadAttributes) :
    Prop :=
  queued = [] ∨ queued = [attrs] ∨
    queued = [attrs.strip] ∧ ∀ payload, ¬ x.Builds head.hash attrs payload

/-- The safe chain so far is the one that forcing every block gives. -/
structure Inv (first : L2BlockRef) (s : GossipRun) : Prop where
  forced : s.AsForced x feed
  walk : Sequence.Walk (Follows codec cfg x feed) 0 first s.heads
  last : s.queue.safeHead = s.heads.getLast?.getD first
  pending : Pending x s.queue.safeHead (feed s.safeBlocks.length) s.queue.safeAttributes

end Runs

variable {codec : TxCodec} {cfg : Config} {x : Executor} {feed : ℕ → PayloadAttributes}
  {first : L2BlockRef} {s t : GossipRun}

theorem rightUnique_follows (i : ℕ) : Relator.RightUnique (Follows codec cfg x feed i) := by
  rintro head next next' ⟨payload, hforces, href⟩ ⟨payload', hforces', href'⟩
  cases hforces.unique hforces'
  cases href.symm.trans href'
  rfl

theorem AsForced.standard (h : s.AsForced x feed) : s.Standard x feed :=
  fun i block hblock => (h i block hblock).standard

variable {rest : List PayloadAttributes} {head : L2BlockRef}

theorem Pending.forces {eng : EngineAnswers} {attrs used : PayloadAttributes}
    {payload : ExecutionPayload} (heng : eng.Runs x) (hattrs : attrs.WellFormed)
    (hpending : Pending x head attrs (used :: rest)) (hsource : Source eng head used payload)
    (hstandard : StandardBlock x head.hash attrs payload) :
    rest = [] ∧ x.Forces head.hash attrs payload := by
  rcases hpending with hnil | hwhole | ⟨hstripped, hnone⟩
  · cases hnil
  · cases hwhole
    exact ⟨rfl, .whole (hsource.builds heng hattrs hstandard)⟩
  · cases hstripped
    have hstandard' : StandardBlock x head.hash attrs.strip payload :=
      ⟨hstandard.feeRecipient, hstandard.gasLimit, hstandard.extraData⟩
    exact ⟨rfl, .stripped hnone (hsource.builds heng hattrs.strip hstandard')⟩

theorem strip_strip (attrs : PayloadAttributes) : attrs.strip.strip = attrs.strip := by
  simp [PayloadAttributes.strip]

theorem Pending.stripped {eng : EngineAnswers} {fc : ForkchoiceState}
    {attrs used : PayloadAttributes} {err : String} (heng : eng.Runs x) (hattrs : attrs.WellFormed)
    (hpending : Pending x head attrs (used :: rest)) (hparent : fc.headBlockHash = head.hash)
    (hfailed : insertHeadBlock eng fc used true = .error (.payload err)) :
    Pending x head attrs (used.strip :: rest) := by
  rcases hpending with hnil | hwhole | ⟨hstripped, hnone⟩
  · cases hnil
  · cases hwhole
    refine .inr (.inr ⟨rfl, fun payload => ?_⟩)
    rw [← hparent]
    exact heng.not_builds hattrs hfailed payload
  · cases hstripped
    exact .inr (.inr ⟨by rw [strip_strip], hnone⟩)

variable {queue : EngineQueue}

theorem Inv.snoc {block : SafeBlock} (h : s.Inv codec cfg x feed first)
    (hparent : block.parent = s.queue.safeHead) (hhead : queue.safeHead = block.ref)
    (hempty : queue.safeAttributes = [])
    (hforces : x.Forces block.parent.hash (feed s.safeBlocks.length) block.payload)
    (href : payloadToBlockRef codec block.payload cfg.genesis = .ok block.ref) :
    Inv codec cfg x feed first { queue, safeBlocks := s.safeBlocks ++ [block] } := by
  have hheads : GossipRun.heads { queue, safeBlocks := s.safeBlocks ++ [block] } =
      s.heads ++ [block.ref] := by simp [heads]
  refine ⟨?_, ?_, ?_, .inl hempty⟩
  · intro i other hother
    rw [getElem?_append] at hother
    split at hother
    next => exact h.forced i other hother
    next hle =>
      rw [getElem?_singleton] at hother
      split at hother
      next hi =>
        cases hother
        have hi : i = s.safeBlocks.length := by omega
        exact hi ▸ hforces
      next => cases hother
  · rw [hheads]
    refine h.walk.snoc ⟨block.payload, ?_, href⟩
    rw [← h.last, ← hparent, Nat.zero_add, heads, length_map]
    exact hforces
  · rw [hheads, getLast?_append_of_ne_nil _ (by simp)]
    exact hhead

theorem Inv.of_effect {eng : EngineAnswers} {out : Outcome} (h : s.Inv codec cfg x feed first)
    (hfeed : ∀ i, (feed i).WellFormed) (heng : eng.Runs x)
    (heffect : SafeEffect codec cfg eng s.queue out)
    (hstandard : Standard x feed
      { queue := out.queue, safeBlocks := recordSafe s.queue s.safeBlocks out }) :
    Inv codec cfg x feed first
      { queue := out.queue, safeBlocks := recordSafe s.queue s.safeBlocks out } := by
  have hpending := h.pending
  cases heffect with
  | idle hhead hattrs hnone =>
    have hsame : recordSafe s.queue s.safeBlocks out = s.safeBlocks := by simp [recordSafe, hnone]
    rw [hsame]
    refine ⟨h.forced, h.walk, hhead.trans h.last, ?_⟩
    rw [hhead, hattrs]
    exact hpending
  | stripped hold hparent hfailed hhead hattrs hnone =>
    have hsame : recordSafe s.queue s.safeBlocks out = s.safeBlocks := by simp [recordSafe, hnone]
    rw [hsame]
    refine ⟨h.forced, h.walk, hhead.trans h.last, ?_⟩
    rw [hold] at hpending
    rw [hhead, hattrs]
    exact hpending.stripped heng (hfeed _) hparent hfailed
  | @promoted attrs rest payload hold hattrs hsource href hsome =>
    have hmore : recordSafe s.queue s.safeBlocks out =
        s.safeBlocks ++ [{ parent := s.queue.safeHead, payload, ref := out.queue.safeHead }] := by
      simp [recordSafe, hsome]
    rw [hmore] at hstandard ⊢
    rw [hold] at hpending
    obtain ⟨hrest, hforces⟩ := hpending.forces heng (hfeed _) hsource
      (hstandard s.safeBlocks.length _ getElem?_concat_length)
    exact h.snoc rfl rfl (hattrs.trans hrest) hforces href

theorem Inv.next (h : s.Inv codec cfg x feed first) (hfeed : ∀ i, (feed i).WellFormed)
    (hstep : s.Step codec cfg x feed t) (hstandard : t.Standard x feed) :
    t.Inv codec cfg x feed first := by
  cases hstep with
  | step eng origin next heng hnext =>
    rcases s.queue.step_cases with ⟨attrs, hattrs, hempty, hout⟩ | heffect
    · unfold GossipRun.step
      rw [hout]
      have hsame : recordSafe s.queue s.safeBlocks
          ({ s.queue with safeAttributes := [attrs] }.stop (.error .notEnoughData)) =
          s.safeBlocks := by simp [recordSafe, EngineQueue.stop]
      simp only [hsame]
      exact ⟨h.forced, h.walk, h.last, .inr (.inl (by rw [hnext attrs hattrs]; rfl))⟩
    · exact h.of_effect hfeed heng heffect hstandard
  | addUnsafePayload => exact {h with}
  | setUnsafeHead => exact {h with}
  | finalize =>
    refine ⟨h.forced, h.walk, ?_, ?_⟩
    · rw [EngineQueue.finalize_safeHead]
      exact h.last
    · rw [EngineQueue.finalize_safeHead, EngineQueue.finalize_safeAttributes]
      exact h.pending

theorem Step.keeps_safeBlocks (hstep : s.Step codec cfg x feed t) :
    s.safeBlocks <+: t.safeBlocks := by
  cases hstep with
  | step => exact prefix_append _ _
  | addUnsafePayload => exact prefix_refl _
  | setUnsafeHead => exact prefix_refl _
  | finalize => exact prefix_refl _

theorem Standard.mono (h : t.Standard x feed) (hkept : s.safeBlocks <+: t.safeBlocks) :
    s.Standard x feed := by
  intro i block hblock
  obtain ⟨more, hmore⟩ := hkept
  refine h i block ?_
  rw [← hmore]
  exact getElem?_append_left (List.getElem?_eq_some_iff.mp hblock).1 ▸ hblock

theorem Inv.run (hfeed : ∀ i, (feed i).WellFormed)
    (hrun : Relation.ReflTransGen (Step codec cfg x feed) (start queue) s)
    (hstandard : s.Standard x feed) : s.Inv codec cfg x feed queue.safeHead := by
  induction hrun with
  | refl => exact ⟨by simp [AsForced, start], .nil, rfl, .inl rfl⟩
  | tail _ hstep ih =>
    exact (ih (hstandard.mono hstep.keeps_safeBlocks)).next hfeed hstep hstandard

/-- The safe blocks of a run are the forced ones exactly when all have the fee recipient of the
attributes, and the gas limit and extra data of the engine; then the safe chain is the same in every
run. -/
theorem safe_chain_of_standard_blocks {one other : EngineQueue}
    (hfeed : ∀ i, (feed i).WellFormed) (hhead : one.safeHead = other.safeHead)
    (hs : Relation.ReflTransGen (Step codec cfg x feed) (start one) s)
    (ht : Relation.ReflTransGen (Step codec cfg x feed) (start other) t) :
    (s.AsForced x feed ↔ s.Standard x feed) ∧
    (s.Standard x feed → t.Standard x feed → s.heads <+: t.heads ∨ t.heads <+: s.heads) := by
  refine ⟨⟨AsForced.standard, fun hstandard => (Inv.run hfeed hs hstandard).forced⟩, ?_⟩
  intro hsStandard htStandard
  have hwalk := (Inv.run hfeed hs hsStandard).walk
  rw [hhead] at hwalk
  exact hwalk.comparable rightUnique_follows (Inv.run hfeed ht htStandard).walk

end GossipRun

def gossipAttributes : PayloadAttributes :=
  (createNextAttributes epochKeccak256 depositCodec devnetConfig epochL1.answers
    (epochBatch 0xc1 1012 []) epochHead).toOption.getD idleAttributes

theorem wellFormed_gossipAttributes : gossipAttributes.WellFormed := by
  have hmade : createNextAttributes epochKeccak256 depositCodec devnetConfig epochL1.answers
      (epochBatch 0xc1 1012 []) epochHead = .ok gossipAttributes := by decide +kernel
  exact wellFormed_createNextAttributes epochL1.from_answers (by simp [SequencerTxs, epochBatch])
    hmade

def gossipBlock (feeRecipient : Address) (hash : Hash) : ExecutionPayload :=
  { gossipAttributes.block epochHead hash with feeRecipient }

def builtBlock : ExecutionPayload := gossipBlock devnetConfig.feeRecipientAddress 0xc2

def forgedBlock : ExecutionPayload := gossipBlock 0xbad 0xc3

def gossipExecutor : Executor where
  valid payload := payload = builtBlock ∨ payload = forgedBlock
  gasLimit _ := 30000000
  extraData _ := []
  determined := by
    rintro a b (rfl | rfl) (rfl | rfl) hinputs
    · rfl
    · exact absurd (congrArg BlockInputs.feeRecipient hinputs) (by decide)
    · exact absurd (congrArg BlockInputs.feeRecipient hinputs) (by decide)
    · rfl

variable (known : ExecutionPayload)

/-- An engine that builds on the safe head, with `known` as the next block of its chain. -/
def gossipEngine : EngineAnswers :=
  engineFor (fun fc requested => requested = gossipAttributes ∧ fc.headBlockHash = 0xc1) builtBlock
    (fun payload => if payload = builtBlock ∨ payload = forgedBlock then .valid else .invalid)
    (.ok known)

theorem builds_builtBlock : gossipExecutor.Builds 0xc1 gossipAttributes builtBlock := by
  refine ⟨.inl rfl, ?_⟩
  decide +kernel

theorem runs_gossipEngine {known : ExecutionPayload} (hknown : gossipExecutor.valid known) :
    (gossipEngine known).Runs gossipExecutor := by
  refine ⟨?_, ?_, ?_, ?_, ?_, ?_, ?_⟩
  · intro fc attrs fcRes id payload hstart hid hget hpool
    obtain ⟨hattrs, hhead⟩ := of_decide_eq_true (engineFor_starts hstart).1
    rw [hattrs, hhead, ← Except.ok.inj hget]
    exact ⟨builds_builtBlock.2, fun hother => hother.unique builds_builtBlock⟩
  · intro fc attrs err payload hrefused
    unfold gossipEngine engineFor at hrefused
    dsimp only at hrefused
    split at hrefused <;> cases hrefused
  · intro fc attrs fcRes payload hstart hinvalid
    rw [(engineFor_starts hstart).2] at hinvalid
    simp at hinvalid
  · intro payload hexec
    by_contra hinvalid
    have hrefused : (gossipEngine known).newPayload payload = .ok .invalid :=
      congrArg Except.ok (if_neg hinvalid)
    rw [hrefused] at hexec
    cases hexec
  · intro payload hexec hvalid
    have hok : (gossipEngine known).newPayload payload = .ok .valid :=
      congrArg Except.ok (if_pos hvalid)
    simp [hok] at hexec
  · intro payload fc _ _
    simp [gossipEngine, engineFor]
  · intro number payload hget
    cases hget
    exact hknown

def gossipOrigin : L1BlockRef :=
  ⟨0xb2, 102, 0xb1, 1024⟩

def gossipStep (next : Except Error PayloadAttributes) (s : GossipRun) : GossipRun :=
  s.step depositCodec devnetConfig (gossipEngine known) gossipOrigin next

def gossipDerive (s : GossipRun) : GossipRun :=
  gossipStep known (.error .eof) (gossipStep known (.ok gossipAttributes) s)

def quietRun : GossipRun := gossipDerive builtBlock (.start epochQueue)

def gossipRun (payload : ExecutionPayload) : GossipRun :=
  gossipDerive payload (gossipStep payload (.error .eof)
    { queue := { (GossipRun.start epochQueue).queue with unsafePayloads := [payload] }
      safeBlocks := [] })

abbrev GossipReaches : GossipRun → GossipRun → Prop :=
  Relation.ReflTransGen
    (GossipRun.Step depositCodec devnetConfig gossipExecutor fun _ => gossipAttributes)

theorem reaches_gossipDerive {known : ExecutionPayload} (hknown : gossipExecutor.valid known)
    (s : GossipRun) : GossipReaches s (gossipDerive known s) := by
  have hfed : GossipReaches s (gossipStep known (.ok gossipAttributes) s) :=
    .single (.step _ gossipOrigin _ (runs_gossipEngine hknown) fun attrs hattrs =>
      (Except.ok.inj hattrs).symm)
  exact hfed.tail (.step _ gossipOrigin _ (runs_gossipEngine hknown) fun attrs hattrs => by
    cases hattrs)

theorem reaches_quietRun : GossipReaches (.start epochQueue) quietRun :=
  reaches_gossipDerive (.inl rfl) _

theorem reaches_gossipRun {payload : ExecutionPayload} (hvalid : gossipExecutor.valid payload) :
    GossipReaches (.start epochQueue) (gossipRun payload) := by
  refine .trans (.tail (.single (.addUnsafePayload [payload])) ?_) (reaches_gossipDerive hvalid _)
  exact .step _ gossipOrigin _ (runs_gossipEngine hvalid) fun attrs hattrs => by cases hattrs

theorem standard_builtBlock (s : GossipRun)
    (hblocks : s.safeBlocks.map (fun block => (block.parent.hash, block.payload)) =
      [(0xc1, builtBlock)]) :
    s.Standard gossipExecutor fun _ => gossipAttributes := by
  intro i block hblock
  have hmem : (block.parent.hash, block.payload) ∈ [((0xc1 : Hash), builtBlock)] := by
    rw [← hblocks]
    exact mem_map_of_mem (mem_of_getElem? hblock)
  obtain ⟨hparent, hpayload⟩ := Prod.mk.inj (mem_singleton.mp hmem)
  rw [hparent, hpayload]
  exact builds_builtBlock.standard

theorem quietRun_eq :
    quietRun.safeBlocks.map (fun block => (block.parent.hash, block.payload)) =
      [(0xc1, builtBlock)] ∧
    quietRun.heads.map L2BlockRef.hash = [0xc2] := by
  decide +kernel

theorem gossipRun_forgedBlock_eq :
    (gossipRun forgedBlock).heads.map L2BlockRef.hash = [0xc3] ∧
    (gossipRun forgedBlock).safeBlocks[0]?.map SafeBlock.payload = some forgedBlock ∧
    forgedBlock.feeRecipient ≠ gossipAttributes.suggestedFeeRecipient := by
  decide +kernel

theorem safe_chain_of_standard_blocks_sample :
    (gossipRun builtBlock).AsForced gossipExecutor (fun _ => gossipAttributes) ∧
    (quietRun.heads <+: (gossipRun builtBlock).heads ∨
      (gossipRun builtBlock).heads <+: quietRun.heads) := by
  have hquiet : quietRun.Standard gossipExecutor fun _ => gossipAttributes :=
    standard_builtBlock _ quietRun_eq.1
  have hgossip : (gossipRun builtBlock).Standard gossipExecutor fun _ => gossipAttributes :=
    standard_builtBlock _ (by decide +kernel)
  obtain ⟨hiff, hsame⟩ := GossipRun.safe_chain_of_standard_blocks
    (fun _ => wellFormed_gossipAttributes) rfl (reaches_gossipRun (.inl rfl)) reaches_quietRun
  exact ⟨hiff.mpr hgossip, (hsame hgossip hquiet).symm⟩

/-- A payload with another fee recipient becomes the safe head in place of the block that would be
forced. -/
theorem gossip_changes_safe_chain :
    GossipReaches (.start epochQueue) quietRun ∧
    GossipReaches (.start epochQueue) (gossipRun forgedBlock) ∧
    quietRun.heads.map L2BlockRef.hash = [0xc2] ∧
    (gossipRun forgedBlock).heads.map L2BlockRef.hash = [0xc3] ∧
    ¬ (gossipRun forgedBlock).AsForced gossipExecutor fun _ => gossipAttributes := by
  obtain ⟨hheads, hblock, hother⟩ := gossipRun_forgedBlock_eq
  refine ⟨reaches_quietRun, reaches_gossipRun (.inr rfl), quietRun_eq.2, hheads, ?_⟩
  intro hforced
  obtain ⟨block, hblock, hpayload⟩ := Option.map_eq_some_iff.mp hblock
  have hfee := (hforced 0 block hblock).standard.feeRecipient
  rw [hpayload] at hfee
  exact hother hfee

end Derive
