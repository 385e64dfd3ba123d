import TokamakTitan.Derive.EngineQueue

/-! What a safe block carries, and the chain of safe blocks: their L1 origins follow the L1 chain,
and every L1 block on the way gives its deposits to one of them. -/
namespace Derive
open Checked List

variable {keccak : Bytes → Hash} {origin : L1Block} {codec : TxCodec} {cfg : Config}
  {l1 : L1Chain}

section Blocks

variable {parent : L2BlockRef} {seqNumber : Uint64} {deposits txs : List Bytes}

theorem isDeposit_l1InfoDepositBytes {info : BlockInfo} {l1InfoTx : Bytes}
    (h : l1InfoDepositBytes keccak codec seqNumber info = .ok l1InfoTx) :
    isDeposit l1InfoTx = true := by
  obtain ⟨rest, rfl⟩ := codec.marshal_cons (l1InfoDepositBytes_eq_ok.mp h)
  rfl

theorem isDeposit_of_depositOf {logs : List Log}
    (h : Forall₂ (DepositOf keccak codec) logs deposits) :
    ∀ tx ∈ deposits, isDeposit tx = true := by
  induction h with
  | nil => simp
  | cons hlog _ ih => exact forall_mem_cons.mpr ⟨hlog.isDeposit, ih⟩

theorem Epoch.isDeposit (h : Epoch keccak codec cfg parent origin seqNumber deposits) :
    ∀ tx ∈ deposits, isDeposit tx = true := by
  cases h with
  | later => simp
  | first _ hdeposits => exact isDeposit_of_depositOf hdeposits

theorem SequencerTxs.filter_isDeposit {rest : List Bytes} (h : SequencerTxs rest) :
    rest.filter isDeposit = [] := by
  rw [filter_eq_nil_iff]
  intro tx htx
  rw [(h tx htx).2]
  decide

namespace Carries

variable (h : Carries keccak codec cfg l1 parent origin seqNumber deposits txs)
include h

theorem filter_eq :
    ∃ l1InfoTx, l1InfoDepositBytes keccak codec seqNumber origin.info = .ok l1InfoTx ∧
      txs.filter isDeposit = l1InfoTx :: deposits := by
  obtain ⟨l1InfoTx, rest, hinfo, rfl, hrest⟩ := h.txs_eq
  refine ⟨l1InfoTx, hinfo, ?_⟩
  rw [filter_cons_of_pos (isDeposit_l1InfoDepositBytes hinfo), filter_append,
    filter_eq_self.mpr h.epoch.isDeposit, hrest.filter_isDeposit, append_nil]

theorem strip :
    Carries keccak codec cfg l1 parent origin seqNumber deposits (txs.filter isDeposit) := by
  obtain ⟨l1InfoTx, hinfo, hfilter⟩ := h.filter_eq
  refine ⟨h.known, h.epoch, l1InfoTx, [], hinfo, ?_, ?_⟩
  · rw [hfilter, append_nil]
  · intro tx htx
    cases htx

theorem ne_nil : txs ≠ [] := by
  obtain ⟨l1InfoTx, rest, -, rfl, -⟩ := h.txs_eq
  exact cons_ne_nil _ _

theorem readL1Info_eq : readL1Info codec txs = .ok (origin.info.id, seqNumber) := by
  obtain ⟨l1InfoTx, rest, hinfo, rfl, -⟩ := h.txs_eq
  have hread := codec.unmarshal_marshal (l1InfoDepositBytes_eq_ok.mp hinfo)
  simp only [readL1Info, hread, l1InfoDepositTxData_l1InfoDeposit, ne_eq, not_true_eq_false,
    if_false]
  rfl

end Carries

variable {payload : ExecutionPayload}

theorem payloadToBlockRef_eq_ok {ref : L2BlockRef} {genesis : Genesis}
    (hgenesis : payload.blockHash ≠ genesis.l2.hash)
    (h : payloadToBlockRef codec payload genesis = .ok ref) :
    readL1Info codec payload.transactions = .ok (ref.l1Origin, ref.sequenceNumber) := by
  simp only [payloadToBlockRef, bind_eq_ok, pure_eq_ok] at h
  obtain ⟨⟨l1Origin, sequenceNumber⟩, hread, rfl⟩ := h
  unfold readOrigin at hread
  split at hread
  next => cases hread
  next => exact hread

variable {attrs : PayloadAttributes}

theorem attributesMatchBlock_eq_ok {parentHash : Hash} {block : ExecutionPayload}
    (h : attributesMatchBlock attrs parentHash block = .ok ()) :
    parentHash = block.parentHash ∧ attrs.timestamp = block.timestamp ∧
      attrs.prevRandao = block.prevRandao ∧ attrs.transactions = block.transactions := by
  unfold attributesMatchBlock at h
  obtain ⟨hparent, h⟩ := of_ite_eq (by simp) h
  obtain ⟨htime, h⟩ := of_ite_eq (by simp) h
  obtain ⟨hrandao, h⟩ := of_ite_eq (by simp) h
  obtain ⟨-, h⟩ := of_ite_eq (by simp) h
  obtain ⟨htxs, -⟩ := of_ite_eq (by simp) h
  exact ⟨not_not.mp hparent, not_not.mp htime, not_not.mp hrandao, not_not.mp htxs⟩

variable {eng : EngineAnswers}

theorem Source.transactions_eq (hexact : eng.Exact cfg.genesis) (hpool : attrs.noTxPool = true)
    (h : Source eng parent attrs payload) : payload.transactions = attrs.transactions := by
  cases h with
  | built _ hstart hid hget => exact hexact.built hstart hid hget hpool
  | found _ hmatch => exact (attributesMatchBlock_eq_ok hmatch).2.2.2.symm

theorem Source.not_genesis (hexact : eng.Exact cfg.genesis) (h : Source eng parent attrs payload)
    (htxs : payload.transactions ≠ []) : payload.blockHash ≠ cfg.genesis.l2.hash := by
  intro hhash
  cases h with
  | built _ _ _ hget => exact htxs (hexact.genesis_built hget hhash)
  | found hget => exact htxs (hexact.genesis_found hget hhash)

end Blocks

structure SafeBlock where
  parent : L2BlockRef
  payload : ExecutionPayload
  ref : L2BlockRef

def SafeBlock.userDeposits (block : SafeBlock) : List Bytes :=
  (block.payload.transactions.filter isDeposit).tail

inductive Linked (start : L2BlockRef) : List SafeBlock → L2BlockRef → Prop
  | nil : Linked start [] start
  | snoc {blocks : List SafeBlock} {block : SafeBlock}
      (hblocks : Linked start blocks block.parent) : Linked start (blocks ++ [block]) block.ref

variable (start : L2BlockRef) (blocks : List SafeBlock)

def safeHeads : List L2BlockRef :=
  start :: blocks.map SafeBlock.ref

theorem safeHeads_snoc (block : SafeBlock) :
    safeHeads start (blocks ++ [block]) = safeHeads start blocks ++ [block.ref] := by
  simp [safeHeads]

theorem Linked.mem {start head : L2BlockRef} {blocks : List SafeBlock}
    (h : Linked start blocks head) : head ∈ safeHeads start blocks := by
  cases h with
  | nil => simp [safeHeads]
  | snoc => simp [safeHeads]

def OpensEpoch (before : List SafeBlock) (block : SafeBlock) : Prop :=
  ∀ ref ∈ safeHeads start before, ref.l1Origin.hash ≠ block.ref.l1Origin.hash

variable {origins : List L1Block}

namespace L1Chain

inductive Path (l1 : L1Chain) (start : Hash) : List L1Block → Hash → Prop
  | nil : Path l1 start [] start
  | snoc {origins : List L1Block} {b : L1Block} (hpath : Path l1 start origins b.info.parentHash)
      (hknown : l1.block b.info.hash = some b) : Path l1 start (origins ++ [b]) b.info.hash

def hashes (start : Hash) (origins : List L1Block) : List Hash :=
  start :: origins.map fun b => b.info.hash

theorem hashes_snoc (start : Hash) (origins : List L1Block) (b : L1Block) :
    hashes start (origins ++ [b]) = hashes start origins ++ [b.info.hash] := by
  simp [hashes]

variable {head : Hash} {b : L1Block} {l1 : L1Chain} {start : Hash}

theorem Path.number_le (hpath : l1.Path start origins head) {h : Hash}
    (hmem : h ∈ hashes start origins) (hb : l1.block h = some b) :
    ∃ top, l1.block head = some top ∧ b.info.number.toNat ≤ top.info.number.toNat := by
  induction hpath with
  | nil =>
    have hstart : h = start := by simpa [hashes] using hmem
    exact ⟨b, hstart ▸ hb, le_refl _⟩
  | @snoc origins top hpath hknown ih =>
    refine ⟨top, hknown, ?_⟩
    rw [hashes_snoc, mem_append, mem_singleton] at hmem
    rcases hmem with hold | rfl
    · obtain ⟨parent, hparent, hle⟩ := ih hold
      have hsucc := l1.number_succ hknown hparent
      omega
    · rw [hknown] at hb
      cases hb
      exact le_refl _

theorem Path.fresh (hpath : l1.Path start origins b.info.parentHash)
    (hknown : l1.block b.info.hash = some b) : b.info.hash ∉ hashes start origins := by
  intro hmem
  obtain ⟨parent, hparent, hle⟩ := hpath.number_le hmem hknown
  have hsucc := l1.number_succ hknown hparent
  omega

theorem Path.nodup (hpath : l1.Path start origins head) : (hashes start origins).Nodup := by
  induction hpath with
  | nil => simp [hashes]
  | @snoc origins top hpath hknown ih =>
    rw [hashes_snoc, nodup_append]
    simp only [nodup_singleton, mem_singleton, forall_eq, true_and]
    refine ⟨ih, ?_⟩
    intro h hmem heq
    exact hpath.fresh hknown (heq ▸ hmem)

end L1Chain

section Chain

variable (keccak : Bytes → Hash) (codec : TxCodec) (cfg : Config) (l1 : L1Chain)

/-- The block carries the L1 info of its origin, and the deposits if it opens the epoch. -/
structure Included (start : L2BlockRef) (before : List SafeBlock) (block : SafeBlock)
    (origin : L1Block) : Prop where
  known : l1.block origin.info.hash = some origin
  readBack : payloadToBlockRef codec block.payload cfg.genesis = .ok block.ref
  l1Origin : block.ref.l1Origin = origin.info.id
  carried : ∃ l1InfoTx rest,
    l1InfoDepositBytes keccak codec block.ref.sequenceNumber origin.info = .ok l1InfoTx ∧
    block.payload.transactions = l1InfoTx :: (block.userDeposits ++ rest) ∧ SequencerTxs rest
  first : OpensEpoch start before block →
    block.ref.sequenceNumber = 0 ∧ List.Forall₂ (DepositOf keccak codec)
      (depositLogs origin.receipts cfg.depositContractAddress) block.userDeposits
  later : ¬ OpensEpoch start before block →
    block.ref.sequenceNumber = block.parent.sequenceNumber + 1 ∧ block.userDeposits = []

structure Accounted (start : L2BlockRef) (blocks : List SafeBlock) (head : L2BlockRef)
    (origins : List L1Block) : Prop where
  path : l1.Path start.l1Origin.hash origins head.l1Origin.hash
  covered : ∀ ref ∈ safeHeads start blocks,
    ref.l1Origin.hash ∈ L1Chain.hashes start.l1Origin.hash origins
  deposits : List.Forall₂ (DepositOf keccak codec)
    (origins.flatMap fun origin => depositLogs origin.receipts cfg.depositContractAddress)
    (blocks.flatMap SafeBlock.userDeposits)

/-- A safe block with the L1 origin that it names and the transactions that it has to carry on top
of its parent. -/
structure Fits (block : SafeBlock) (origin : L1Block) : Prop where
  carries : Carries keccak codec cfg l1 block.parent origin block.ref.sequenceNumber
    block.userDeposits block.payload.transactions
  readBack : payloadToBlockRef codec block.payload cfg.genesis = .ok block.ref
  l1Origin : block.ref.l1Origin = origin.info.id

/-- A chain of safe blocks, each of which fits on top of the one before it. -/
inductive Derived (start : L2BlockRef) : List SafeBlock → L2BlockRef → Prop
  | nil : Derived start [] start
  | snoc {blocks : List SafeBlock} {block : SafeBlock} {origin : L1Block}
      (hblocks : Derived start blocks block.parent)
      (hfits : Fits keccak codec cfg l1 block origin) :
      Derived start (blocks ++ [block]) block.ref

end Chain

variable {start head : L2BlockRef} {blocks : List SafeBlock} {block : SafeBlock}

theorem Accounted.opensEpoch (h : Accounted keccak codec cfg l1 start blocks head origins)
    (hknown : l1.block origin.info.hash = some origin)
    (hparent : origin.info.parentHash = head.l1Origin.hash)
    (horigin : block.ref.l1Origin = origin.info.id) : OpensEpoch start blocks block := by
  intro ref href heq
  have hpath := h.path
  rw [← hparent] at hpath
  apply hpath.fresh hknown
  have hcovered := h.covered ref href
  rw [heq, horigin] at hcovered
  exact hcovered

theorem Linked.not_opensEpoch (h : Linked start blocks head)
    (hsame : origin.info.hash = head.l1Origin.hash)
    (horigin : block.ref.l1Origin = origin.info.id) : ¬ OpensEpoch start blocks block := by
  intro hopens
  apply hopens head h.mem
  rw [horigin, ← hsame]
  rfl

theorem fits_of_carries {payload : ExecutionPayload} {ref : L2BlockRef} {seqNumber : Uint64}
    {deposits : List Bytes}
    (hcarries : Carries keccak codec cfg l1 head origin seqNumber deposits payload.transactions)
    (hgenesis : payload.blockHash ≠ cfg.genesis.l2.hash)
    (href : payloadToBlockRef codec payload cfg.genesis = .ok ref) :
    Fits keccak codec cfg l1 { parent := head, payload, ref } origin := by
  have hread := payloadToBlockRef_eq_ok hgenesis href
  rw [hcarries.readL1Info_eq, Except.ok.injEq, Prod.mk.injEq] at hread
  obtain ⟨l1InfoTx, -, hfilter⟩ := hcarries.filter_eq
  have huser : SafeBlock.userDeposits { parent := head, payload, ref } = deposits := by
    rw [SafeBlock.userDeposits, hfilter, tail_cons]
  refine ⟨?_, href, hread.1.symm⟩
  rw [huser, ← hread.2]
  exact hcarries

theorem Accounted.extend (h : Accounted keccak codec cfg l1 start blocks head origins)
    (hlinked : Linked start blocks head) (hparent : block.parent = head)
    (hfits : Fits keccak codec cfg l1 block origin) :
    Included keccak codec cfg l1 start blocks block origin ∧ ∃ origins,
      Accounted keccak codec cfg l1 start (blocks ++ [block]) block.ref origins := by
  obtain ⟨hcarries, href, horigin⟩ := hfits
  subst hparent
  have hhash : block.ref.l1Origin.hash = origin.info.hash := by
    rw [horigin]
    rfl
  rcases (epoch_iff ..).mp hcarries.epoch with ⟨hup, hdeposits, hseq⟩ | ⟨hsame, hseq, hnone⟩
  · have hopens := h.opensEpoch hcarries.known hup horigin
    refine ⟨⟨hcarries.known, href, horigin, hcarries.txs_eq, fun _ => ⟨hseq, hdeposits⟩,
      fun hnot => absurd hopens hnot⟩, origins ++ [origin], ?_, ?_, ?_⟩
    · rw [hhash]
      refine .snoc ?_ hcarries.known
      rw [hup]
      exact h.path
    · intro ref hmem
      rw [safeHeads_snoc, mem_append, mem_singleton] at hmem
      rw [L1Chain.hashes_snoc, mem_append, mem_singleton]
      rcases hmem with hmem | rfl
      · exact .inl (h.covered ref hmem)
      · exact .inr hhash
    · simp only [flatMap_append, flatMap_singleton]
      exact rel_append h.deposits hdeposits
  · have hstays := hlinked.not_opensEpoch hsame horigin
    refine ⟨⟨hcarries.known, href, horigin, hcarries.txs_eq, fun hopens => absurd hopens hstays,
      fun _ => ⟨hseq, hnone⟩⟩, origins, ?_, ?_, ?_⟩
    · rw [hhash, hsame]
      exact h.path
    · intro ref hmem
      rw [safeHeads_snoc, mem_append, mem_singleton] at hmem
      rcases hmem with hmem | rfl
      · exact h.covered ref hmem
      · rw [hhash, hsame]
        exact h.covered block.parent hlinked.mem
    · simp only [flatMap_append, flatMap_singleton, hnone, append_nil]
      exact h.deposits

theorem append_cons_of_snoc {α : Type} {xs before after : List α} {new x : α}
    (h : xs ++ [new] = before ++ x :: after) :
    (before = xs ∧ x = new) ∨ ∃ rest, xs = before ++ x :: rest := by
  rcases eq_nil_or_concat after with rfl | ⟨rest, last, rfl⟩
  · have hlast := append_inj' h rfl
    exact .inl ⟨hlast.1.symm, (cons.inj hlast.2).1.symm⟩
  · rw [concat_eq_append, ← cons_append, ← append_assoc] at h
    exact .inr ⟨rest, (append_inj' h rfl).1⟩

namespace Derived

theorem linked (h : Derived keccak codec cfg l1 start blocks head) : Linked start blocks head := by
  induction h with
  | nil => exact .nil
  | snoc _ _ ih => exact .snoc ih

theorem accounted (h : Derived keccak codec cfg l1 start blocks head) :
    ∃ origins, Accounted keccak codec cfg l1 start blocks head origins := by
  induction h with
  | nil => exact ⟨[], .nil, by simp [safeHeads, L1Chain.hashes], .nil⟩
  | snoc hblocks hfits ih =>
    obtain ⟨origins, haccounted⟩ := ih
    exact (haccounted.extend hblocks.linked rfl hfits).2

theorem included (h : Derived keccak codec cfg l1 start blocks head)
    {before after : List SafeBlock} (hsplit : blocks = before ++ block :: after) :
    ∃ origin, Included keccak codec cfg l1 start before block origin := by
  induction h generalizing after with
  | nil => simp at hsplit
  | snoc hblocks hfits ih =>
    rcases append_cons_of_snoc hsplit with ⟨rfl, rfl⟩ | ⟨rest, hold⟩
    · obtain ⟨origins, haccounted⟩ := hblocks.accounted
      exact ⟨_, (haccounted.extend hblocks.linked rfl hfits).1⟩
    · exact ih hold

/-- The chain up to one of its heads. -/
theorem take (h : Derived keccak codec cfg l1 start blocks head) {k : ℕ} {ref : L2BlockRef}
    (hk : (safeHeads start blocks)[k]? = some ref) :
    Derived keccak codec cfg l1 start (blocks.take k) ref := by
  induction h with
  | nil =>
    rw [safeHeads, map_nil, getElem?_singleton, Option.ite_none_right_eq_some] at hk
    obtain ⟨rfl, hk⟩ := hk
    cases hk
    exact .nil
  | @snoc blocks block origin hblocks hfits ih =>
    rw [safeHeads_snoc] at hk
    have hlength : (safeHeads start blocks).length = blocks.length + 1 := by simp [safeHeads]
    rcases lt_trichotomy k (blocks.length + 1) with hlt | rfl | hlt
    · rw [getElem?_append_left (by omega)] at hk
      rw [take_append_of_le_length (by omega)]
      exact ih hk
    · rw [← hlength, getElem?_concat_length] at hk
      cases hk
      rw [take_of_length_le (by simp)]
      exact .snoc hblocks hfits
    · rw [getElem?_eq_none (by simp [hlength]; omega)] at hk
      cases hk

end Derived

end Derive
