import TokamakTitan.Library.Ancestry
import TokamakTitan.Derive.DepositsOnce
import TokamakTitan.Derive.Heads
import TokamakTitan.Derive.StartingPoint

/-! The order of the three heads, and the fate of the finalized one, along every run of the engine
queue against an engine that keeps its labels. -/
namespace Derive
open Ancestry.Forest

structure L2Chain where
  block : Hash → Option ExecutionPayload
  hash_eq : ∀ {h payload}, block h = some payload → payload.blockHash = h
  number_succ : ∀ {h payload parent}, block h = some payload →
    block payload.parentHash = some parent →
    payload.blockNumber.toNat = parent.blockNumber.toNat + 1
  zero : block 0 = none

namespace L2Chain

def forest (l2 : L2Chain) : Ancestry.Forest Hash :=
  .ofBlocks l2.block ExecutionPayload.parentHash (fun payload => payload.blockNumber.toNat)
    l2.number_succ

def Ancestor (l2 : L2Chain) (a b : Hash) : Prop := l2.forest.Ancestor a b

def Has (l2 : L2Chain) (codec : TxCodec) (genesis : Genesis) (ref : L2BlockRef) : Prop :=
  ∃ payload, l2.block ref.hash = some payload ∧ payloadToBlockRef codec payload genesis = .ok ref

end L2Chain

/-- The finalized label is the genesis block as long as no update has set it. -/
def ForkchoiceState.finalizedLabel (genesis : Genesis) (labels : ForkchoiceState) : Hash :=
  if labels.finalizedBlockHash = 0 then genesis.l2.hash else labels.finalizedBlockHash

def ForkchoiceState.safeLabel (genesis : Genesis) (labels : ForkchoiceState) : Hash :=
  if labels.safeBlockHash = 0 then labels.finalizedLabel genesis else labels.safeBlockHash

section Order

variable (codec : TxCodec) (cfg : Config) (l2 : L2Chain)

/-- What the engine executes is a block of the chain, it builds on the head that it is given, and it
finds blocks by number below its head. -/
structure EngineAnswers.Over (eng : EngineAnswers) (labels : ForkchoiceState) : Prop where
  executed : ∀ {payload}, eng.newPayload payload = .ok .valid →
    l2.block payload.blockHash = some payload
  built : ∀ {fc payload}, Built eng fc payload → payload.parentHash = fc.headBlockHash
  found : ∀ {number payload}, eng.payloadByNumber number = .ok payload →
    l2.block payload.blockHash = some payload ∧ payload.blockNumber = number ∧
      l2.Ancestor payload.blockHash labels.headBlockHash

/-- What is assumed of the answers about blocks: the labels are those of the last update. -/
structure L2Source.Over (source : L2Source) (labels : ForkchoiceState) : Prop where
  byHash : ∀ {h ref}, source.byHash h = .ok ref → l2.Has codec cfg.genesis ref ∧ ref.hash = h
  latest : ∀ {ref}, source.byLabel .latest = .ok ref →
    l2.Has codec cfg.genesis ref ∧ ref.hash = labels.headBlockHash
  safe : ∀ {ref}, source.byLabel .safe = .ok ref → l2.Has codec cfg.genesis ref ∧
    labels.safeBlockHash ≠ 0 ∧ ref.hash = labels.safeBlockHash
  noSafe : source.byLabel .safe = .error .notFound → labels.safeBlockHash = 0
  finalized : ∀ {ref}, source.byLabel .finalized = .ok ref → l2.Has codec cfg.genesis ref ∧
    labels.finalizedBlockHash ≠ 0 ∧ ref.hash = labels.finalizedBlockHash
  noFinalized : source.byLabel .finalized = .error .notFound → labels.finalizedBlockHash = 0

structure ForkchoiceState.Ordered (labels : ForkchoiceState) : Prop where
  finalized : l2.Ancestor (labels.finalizedLabel cfg.genesis) (labels.safeLabel cfg.genesis)
  safe : l2.Ancestor (labels.safeLabel cfg.genesis) labels.headBlockHash

structure EngineQueue.Ordered (eq : EngineQueue) : Prop where
  finalized : l2.Has codec cfg.genesis eq.finalized
  safeHead : l2.Has codec cfg.genesis eq.safeHead
  unsafeHead : l2.Has codec cfg.genesis eq.unsafeHead
  finalized_safe : l2.Ancestor eq.finalized.hash eq.safeHead.hash
  safe_latest : l2.Ancestor eq.safeHead.hash eq.unsafeHead.hash

/-- The head of the engine is on the unsafe chain, at the safe head that a block was to be built on,
or at a block built there that the node cannot read. -/
def EngineQueue.HeadFits (eq : EngineQueue) (head : Hash) : Prop :=
  l2.Ancestor eq.unsafeHead.hash head ∨ head = eq.safeHead.hash ∨
  ∃ payload err, l2.block head = some payload ∧ payload.parentHash = eq.safeHead.hash ∧
    payloadToBlockRef codec payload cfg.genesis = .error err

/-- The updates of which the answer may be lost: all but the one that replaces the unsafe chain by
a new safe block. -/
def EngineQueue.MayLose (eq : EngineQueue) (fc : ForkchoiceState)
    (attrs : Option PayloadAttributes) : Prop :=
  attrs ≠ none ∨ fc.headBlockHash ≠ fc.safeBlockHash ∨ eq.unsafeHead = eq.safeHead

structure HeadsRun where
  queue : EngineQueue
  labels : ForkchoiceState

namespace HeadsRun

inductive Work (s : HeadsRun) : HeadsRun → Prop
  | step (eng : EngineAnswers) (origin : L1BlockRef) (next : Except Error PayloadAttributes)
      (after : ForkchoiceState) (heng : eng.Over l2 s.labels)
      (hlabels : Relabels eng s.queue.MayLose s.labels (s.queue.calls codec cfg eng next) after) :
      Work s { queue := (s.queue.step codec cfg eng origin next).queue, labels := after }
  | finalize (l1Origin : BlockID) : Work s { s with queue := s.queue.finalize l1Origin }
  | addUnsafePayload (payloads : List ExecutionPayload) :
      Work s { s with queue := { s.queue with unsafePayloads := payloads } }
  | addSafeAttributes (attrs : PayloadAttributes) :
      Work s { s with
        queue := { s.queue with safeAttributes := s.queue.safeAttributes ++ [attrs] } }

inductive Reset (s : HeadsRun) : HeadsRun → Prop
  | reset (answers : ResetAnswers) (heads : FindHeadsResult) (origin : L1BlockRef)
      (hsource : answers.l2.Over codec cfg l2 s.labels)
      (hreset : EngineQueue.resetPoint cfg answers = .ok (heads, origin))
      (husable : heads.unsafeHead ≠ L2BlockRef.zero) :
      Reset s { s with queue := s.queue.setHeads heads }

def Step (s t : HeadsRun) : Prop := s.Work codec cfg l2 t ∨ s.Reset codec cfg l2 t

def Start (s : HeadsRun) : Prop :=
  ∃ before : HeadsRun, before.labels.Ordered cfg l2 ∧ before.Reset codec cfg l2 s

/-- Heads and labels are in order, and recorded blocks lie below the safe head. -/
structure Inv (s : HeadsRun) : Prop where
  ordered : s.queue.Ordered codec cfg l2
  labels : s.labels.Ordered cfg l2
  head : s.queue.HeadFits codec cfg l2 s.labels.headBlockHash
  finalized : l2.Ancestor (s.labels.finalizedLabel cfg.genesis) s.queue.finalized.hash
  recorded : ∀ fd ∈ s.queue.finalityData, l2.Has codec cfg.genesis fd.l2Block ∧
    l2.Ancestor fd.l2Block.hash s.queue.safeHead.hash

end HeadsRun

end Order

variable {codec : TxCodec} {cfg : Config} {l2 : L2Chain}

section Blocks

variable {a b top : Hash} {ref parent child : L2BlockRef} {payload : ExecutionPayload}

theorem L2Chain.ne_zero_of_block (hblock : l2.block a = some payload) : a ≠ 0 := by
  rintro rfl
  rw [l2.zero] at hblock
  cases hblock

theorem L2Chain.height_of_block (h : l2.block a = some payload) :
    l2.forest.height a = payload.blockNumber.toNat := height_ofBlocks h

theorem L2Chain.ancestor_parent {above : ExecutionPayload} (hb : l2.block b = some above)
    (hlink : above.parentHash = a) (ha : l2.block a = some payload) : l2.Ancestor a b := by
  subst hlink
  exact .of_parent (parent_ofBlocks hb ha)

theorem L2Chain.Has.height (h : l2.Has codec cfg.genesis ref) :
    l2.forest.height ref.hash = ref.number.toNat := by
  obtain ⟨payload, hblock, hread⟩ := h
  rw [L2Chain.height_of_block hblock, (payloadToBlockRef_fields hread).2.1]

theorem L2Chain.has_of_block (h : l2.block payload.blockHash = some payload)
    (hread : payloadToBlockRef codec payload cfg.genesis = .ok ref) :
    l2.Has codec cfg.genesis ref :=
  ⟨payload, by rw [(payloadToBlockRef_fields hread).1, h], hread⟩

theorem L2Chain.Has.hash_ne_zero (h : l2.Has codec cfg.genesis ref) : ref.hash ≠ 0 := by
  obtain ⟨payload, hblock, -⟩ := h
  exact ne_zero_of_block hblock

variable (hparent : l2.Has codec cfg.genesis parent) (hchild : l2.Has codec cfg.genesis child)
include hparent hchild

theorem L2Chain.Has.unique (hhash : parent.hash = child.hash) : parent = child := by
  obtain ⟨x, hx, hreadx⟩ := hparent
  obtain ⟨y, hy, hready⟩ := hchild
  rw [hhash, hy] at hx
  cases hx
  rw [hreadx] at hready
  exact Except.ok.inj hready

theorem L2Chain.Has.number_le (h : l2.Ancestor parent.hash child.hash) :
    parent.number ≤ child.number := by
  have hle := Ancestor.height_le h
  rw [hparent.height, hchild.height] at hle
  exact hle

theorem L2Chain.Has.ancestor_of_number_le (hp : l2.Ancestor parent.hash top)
    (hc : l2.Ancestor child.hash top) (hle : parent.number ≤ child.number) :
    l2.Ancestor parent.hash child.hash := by
  apply Ancestor.of_height_le hp hc
  rw [hparent.height, hchild.height]
  exact hle

theorem L2Chain.Has.ancestor_child (hlink : child.parentHash = parent.hash) :
    l2.Ancestor parent.hash child.hash := by
  obtain ⟨x, hx, -⟩ := hparent
  obtain ⟨y, hy, hread⟩ := hchild
  exact L2Chain.ancestor_parent hy ((payloadToBlockRef_fields hread).2.2.symm.trans hlink) hx

end Blocks

section Walk

variable {labels : ForkchoiceState} {source : L2Source} {l1 : L1Source} {w looked : HeadsWalk}
  {fin prevUnsafe : L2BlockRef} {heads : FindHeadsResult}

structure HeadsWalk.On (codec : TxCodec) (cfg : Config) (l2 : L2Chain) (head : Hash)
    (fin : L2BlockRef) (w : HeadsWalk) : Prop where
  has : l2.Has codec cfg.genesis w.n
  below : l2.Ancestor w.n.hash head
  finalized : w.result.finalized = fin
  above : fin.number ≤ w.n.number
  unsafeHead : w.result.unsafeHead = L2BlockRef.zero ∨
    l2.Has codec cfg.genesis w.result.unsafeHead ∧
      l2.Ancestor w.n.hash w.result.unsafeHead.hash ∧
      l2.Ancestor w.result.unsafeHead.hash head

structure FindHeadsResult.On (codec : TxCodec) (cfg : Config) (l2 : L2Chain) (head : Hash)
    (fin : L2BlockRef) (heads : FindHeadsResult) : Prop where
  finalized : heads.finalized = fin
  safeHead : l2.Has codec cfg.genesis heads.safeHead
  finalized_safe : l2.Ancestor fin.hash heads.safeHead.hash
  unsafeHead : heads.unsafeHead = L2BlockRef.zero ∨
    l2.Has codec cfg.genesis heads.unsafeHead ∧
      l2.Ancestor heads.safeHead.hash heads.unsafeHead.hash ∧
      l2.Ancestor heads.unsafeHead.hash head

theorem HeadsWalk.lookup_frame (h : w.lookup l1 = .ok looked) :
    ∃ l1Block ahead, looked = { w with l1Block, ahead } := by
  unfold lookup at h
  split at h
  next => split at h <;> cases h <;> exact ⟨_, _, rfl⟩
  next =>
    cases h
    exact ⟨_, _, rfl⟩

theorem HeadsWalk.judge_unsafeHead (w : HeadsWalk) :
    w.judge.result.unsafeHead = L2BlockRef.zero ∨
    w.judge.result.unsafeHead =
      if w.result.unsafeHead = L2BlockRef.zero then w.n else w.result.unsafeHead := by
  unfold judge
  dsimp only
  split
  · exact .inr rfl
  · split
    · exact .inr rfl
    · exact .inl rfl

variable {head : Hash}

theorem HeadsWalk.On.judge (h : w.On codec cfg l2 head fin) (hlookup : w.lookup l1 = .ok looked) :
    looked.judge.On codec cfg l2 head fin := by
  have hnow : looked.On codec cfg l2 head fin := by
    obtain ⟨_, _, rfl⟩ := HeadsWalk.lookup_frame hlookup
    exact { h with }
  refine ⟨?_, ?_, ?_, ?_, ?_⟩
  · rw [looked.judge_n]
    exact hnow.has
  · rw [looked.judge_n]
    exact hnow.below
  · rw [looked.judge_finalized]
    exact hnow.finalized
  · rw [looked.judge_n]
    exact hnow.above
  · rw [looked.judge_n]
    rcases looked.judge_unsafeHead with hzero | hkept
    · exact .inl hzero
    · right
      rw [hkept]
      split
      next => exact ⟨hnow.has, .refl _ _, hnow.below⟩
      next hne => exact hnow.unsafeHead.resolve_left hne

theorem HeadsWalk.On.parent {parent : L2BlockRef} (h : w.On codec cfg l2 head fin)
    (hparent : l2.Has codec cfg.genesis parent) (hlink : w.n.parentHash = parent.hash)
    (hne : w.n.number ≠ fin.number) :
    HeadsWalk.On codec cfg l2 head fin { w with n := parent } := by
  have hup : l2.Ancestor parent.hash w.n.hash := hparent.ancestor_child h.has hlink
  have hbelow : l2.Ancestor parent.hash head := Ancestor.trans hup h.below
  have hnumber : w.n.number.toNat = parent.number.toNat + 1 := by
    obtain ⟨x, hx, hreadx⟩ := hparent
    obtain ⟨y, hy, hready⟩ := h.has
    obtain ⟨-, hxnumber, -⟩ := payloadToBlockRef_fields hreadx
    obtain ⟨-, hynumber, hyparent⟩ := payloadToBlockRef_fields hready
    rw [hxnumber, hynumber]
    exact l2.number_succ hy (by rw [← hyparent, hlink, hx])
  have habove := h.above
  refine ⟨hparent, hbelow, h.finalized, ?_, ?_⟩
  · show fin.number ≤ parent.number
    bv_omega
  · rcases h.unsafeHead with hzero | ⟨hhas, hanc, hhead⟩
    · exact .inl hzero
    · exact .inr ⟨hhas, Ancestor.trans hup hanc, hhead⟩

theorem HeadsWalk.On.settle (h : w.On codec cfg l2 head fin) (hfin : l2.Has codec cfg.genesis fin)
    (hfinHead : l2.Ancestor fin.hash head) : (w.settle w.n).On codec cfg l2 head fin :=
  ⟨h.finalized, h.has, hfin.ancestor_of_number_le h.has hfinHead h.below h.above, h.unsafeHead⟩

theorem findL2HeadsFrom_on (hsource : source.Over codec cfg l2 labels)
    (hfin : l2.Has codec cfg.genesis fin) (hfinHead : l2.Ancestor fin.hash head) {fuel : ℕ}
    (hw : w.On codec cfg l2 head fin)
    (h : findL2HeadsFrom cfg l1 source prevUnsafe fuel w = .ok heads) :
    heads.On codec cfg l2 head fin := by
  induction fuel generalizing w with
  | zero => cases h
  | succ fuel ih =>
    rcases HeadsWalk.round_cases h with ⟨err, herr, -⟩ | ⟨looked, hlookup, hend | hgo⟩
    · cases herr
    · obtain ⟨-, hheads⟩ := hend
      cases hheads
      exact (hw.judge hlookup).settle hfin hfinHead
    · obtain ⟨parent, hne, hget, -, hrest⟩ := hgo
      obtain ⟨hparent, hhash⟩ := hsource.byHash hget
      have hjudged := hw.judge hlookup
      rw [hjudged.finalized] at hne
      have hnext := hjudged.parent hparent hhash.symm hne
      rcases hrest with ⟨-, hheads⟩ | ⟨-, hcont⟩
      · cases hheads
        exact hnext.settle hfin hfinHead
      · exact ih hnext hcont.symm

theorem currentHeads_eq_ok (hsource : source.Over codec cfg l2 labels)
    (h : currentHeads cfg source = .ok heads) :
    (l2.Has codec cfg.genesis heads.finalized ∧
      heads.finalized.hash = labels.finalizedLabel cfg.genesis) ∧
    l2.Has codec cfg.genesis heads.unsafeHead ∧
      heads.unsafeHead.hash = labels.headBlockHash := by
  simp only [currentHeads, Checked.bind_eq_ok] at h
  obtain ⟨finalized, hfinalized, safeHead, -, h⟩ := h
  have hfin : l2.Has codec cfg.genesis finalized ∧
      finalized.hash = labels.finalizedLabel cfg.genesis := by
    unfold currentFinalized at hfinalized
    dsimp only at hfinalized
    unfold ForkchoiceState.finalizedLabel
    split at hfinalized
    next => cases hfinalized
    next ref hanswer =>
      cases hfinalized
      split at hanswer
      next hnone =>
        rw [if_pos (hsource.noFinalized hnone)]
        exact hsource.byHash hanswer
      next =>
        obtain ⟨hhas, hne, hhash⟩ := hsource.finalized hanswer
        rw [if_neg hne]
        exact ⟨hhas, hhash⟩
  split at h
  next => cases h
  next unsafeHead hlatest =>
    cases h
    exact ⟨hfin, hsource.latest hlatest⟩

theorem findL2Heads_on (hsource : source.Over codec cfg l2 labels)
    (hlabels : labels.Ordered cfg l2) (h : findL2Heads cfg l1 source = .ok heads) :
    l2.Has codec cfg.genesis heads.finalized ∧
    heads.finalized.hash = labels.finalizedLabel cfg.genesis ∧
    heads.On codec cfg l2 labels.headBlockHash heads.finalized := by
  unfold findL2Heads at h
  split at h
  next => cases h
  next found hfound =>
    obtain ⟨⟨hfin, hfinHash⟩, hunsafeHas, hunsafeHash⟩ := currentHeads_eq_ok hsource hfound
    have hfinHead : l2.Ancestor found.finalized.hash labels.headBlockHash := by
      rw [hfinHash]
      exact Ancestor.trans hlabels.finalized hlabels.safe
    have hself : l2.Ancestor found.unsafeHead.hash labels.headBlockHash := by
      rw [hunsafeHash]
      exact .refl _ _
    have hwalk : HeadsWalk.On codec cfg l2 labels.headBlockHash found.finalized
        { result := found
          n := found.unsafeHead
          highestL2WithCanonicalL1Origin := L2BlockRef.zero
          l1Block := L1BlockRef.zero
          ahead := false } := by
      refine ⟨hunsafeHas, hself, rfl, ?_, .inr ⟨hunsafeHas, .refl _ _, hself⟩⟩
      apply hfin.number_le hunsafeHas
      rw [hunsafeHash]
      exact hfinHead
    have hon := findL2HeadsFrom_on hsource hfin hfinHead hwalk h
    rw [hon.finalized]
    exact ⟨hfin, hfinHash, hon⟩

end Walk

section Steps

variable {s t : HeadsRun} {eng : EngineAnswers} {origin : L1BlockRef} {after : ForkchoiceState}
  {out : Outcome} {payload : ExecutionPayload}

theorem ForkchoiceState.Ordered.of_update {fc : ForkchoiceState} {fin : L2BlockRef}
    (hfin : l2.Has codec cfg.genesis fin) (hlabel : fc.finalizedBlockHash = fin.hash)
    (hsafe : l2.block fc.safeBlockHash = some payload)
    (hfirst : l2.Ancestor fin.hash fc.safeBlockHash)
    (hsecond : l2.Ancestor fc.safeBlockHash fc.headBlockHash) :
    fc.Ordered cfg l2 ∧ fc.finalizedLabel cfg.genesis = fin.hash := by
  have hfinLabel : fc.finalizedLabel cfg.genesis = fin.hash := by
    rw [finalizedLabel, hlabel, if_neg hfin.hash_ne_zero]
  have hsafeLabel : fc.safeLabel cfg.genesis = fc.safeBlockHash :=
    if_neg (L2Chain.ne_zero_of_block hsafe)
  refine ⟨⟨?_, ?_⟩, hfinLabel⟩
  · rw [hfinLabel, hsafeLabel]
    exact hfirst
  · rw [hsafeLabel]
    exact hsecond

namespace HeadsRun

theorem Inv.of_same {eq : EngineQueue} (h : Inv codec cfg l2 { queue := eq, labels := after })
    (hsame : eq.SameHeads out) : Inv codec cfg l2 { queue := out.queue, labels := after } := by
  obtain ⟨⟨_, _, _, hqueue⟩, -⟩ := hsame
  rw [hqueue]
  exact { h with ordered := { h.ordered with } }

variable (h : s.Inv codec cfg l2)
include h

theorem Inv.relabel
    (hlabels : after.Ordered cfg l2 ∧ after.finalizedLabel cfg.genesis = s.queue.finalized.hash)
    (hhead : s.queue.HeadFits codec cfg l2 after.headBlockHash) :
    Inv codec cfg l2 { queue := s.queue, labels := after } := by
  refine ⟨h.ordered, hlabels.1, hhead, ?_, h.recorded⟩
  rw [hlabels.2]
  exact .refl _ _

theorem Inv.promote {payload : ExecutionPayload}
    (hpromotes : s.queue.Promotes codec cfg origin payload out)
    (hblock : l2.block payload.blockHash = some payload)
    (hparent : payload.parentHash = s.queue.safeHead.hash)
    (hlatest : l2.Has codec cfg.genesis out.queue.unsafeHead)
    (horder : l2.Ancestor out.queue.safeHead.hash out.queue.unsafeHead.hash)
    (hlabels : after.Ordered cfg l2)
    (hfinal : l2.Ancestor (after.finalizedLabel cfg.genesis) s.queue.finalized.hash)
    (hhead : l2.Ancestor out.queue.unsafeHead.hash after.headBlockHash) :
    Inv codec cfg l2 { queue := out.queue, labels := after } := by
  have hsafe : l2.Has codec cfg.genesis out.queue.safeHead :=
    L2Chain.has_of_block hblock hpromotes.readBack
  obtain ⟨-, -, hrefParent⟩ := payloadToBlockRef_fields hpromotes.readBack
  have hup : l2.Ancestor s.queue.safeHead.hash out.queue.safeHead.hash :=
    h.ordered.safeHead.ancestor_child hsafe (hrefParent.trans hparent)
  refine ⟨⟨?_, hsafe, hlatest, ?_, horder⟩, hlabels, .inl hhead, ?_, ?_⟩
  · rw [hpromotes.finalized]
    exact h.ordered.finalized
  · rw [hpromotes.finalized]
    exact Ancestor.trans h.ordered.finalized_safe hup
  · rw [hpromotes.finalized]
    exact hfinal
  · intro fd hfd
    rw [hpromotes.finalityData] at hfd
    rcases EngineQueue.mem_recordFinality hfd with hold | rfl | ⟨last, -, -, rfl⟩
    · obtain ⟨hhas, hanc⟩ := h.recorded fd hold
      exact ⟨hhas, Ancestor.trans hanc hup⟩
    · exact ⟨hsafe, .refl _ _⟩
    · exact ⟨hsafe, .refl _ _⟩

theorem Inv.built {payload : ExecutionPayload} (heng : eng.Over l2 s.labels)
    (hbuilt : Built eng s.queue.safeForkchoice payload) :
    l2.block payload.blockHash = some payload ∧
    payload.parentHash = s.queue.safeHead.hash ∧
    l2.Ancestor s.queue.safeHead.hash payload.blockHash ∧
    (s.queue.safeForkchoice.insert payload true).Ordered cfg l2 ∧
    (s.queue.safeForkchoice.insert payload true).finalizedLabel cfg.genesis =
      s.queue.finalized.hash := by
  have hblock := heng.executed hbuilt.executed
  have hparent : payload.parentHash = s.queue.safeHead.hash := heng.built hbuilt
  obtain ⟨below, hbelow, -⟩ := h.ordered.safeHead
  have hup : l2.Ancestor s.queue.safeHead.hash payload.blockHash :=
    L2Chain.ancestor_parent hblock hparent hbelow
  refine ⟨hblock, hparent, hup, ?_⟩
  exact ForkchoiceState.Ordered.of_update h.ordered.finalized rfl hblock
    (Ancestor.trans h.ordered.finalized_safe hup) (.refl _ _)

variable {ref : L2BlockRef}

theorem Inv.offered {first : ExecutionPayload} (heng : eng.Over l2 s.labels)
    (hoffers : s.queue.Offers codec cfg eng first ref) :
    l2.Has codec cfg.genesis ref ∧ ref.hash = first.blockHash ∧
    l2.Ancestor s.queue.unsafeHead.hash first.blockHash ∧
    (s.queue.unsafeForkchoice first).Ordered cfg l2 ∧
    (s.queue.unsafeForkchoice first).finalizedLabel cfg.genesis = s.queue.finalized.hash := by
  have hblock := heng.executed hoffers.executed
  obtain ⟨below, hbelow, -⟩ := h.ordered.unsafeHead
  have hup : l2.Ancestor s.queue.unsafeHead.hash first.blockHash :=
    L2Chain.ancestor_parent hblock hoffers.parent hbelow
  obtain ⟨safeBlock, hsafeBlock, -⟩ := h.ordered.safeHead
  refine ⟨L2Chain.has_of_block hblock hoffers.readBack,
    (payloadToBlockRef_fields hoffers.readBack).1, hup, ?_⟩
  exact ForkchoiceState.Ordered.of_update h.ordered.finalized rfl hsafeBlock
    h.ordered.finalized_safe (Ancestor.trans h.ordered.safe_latest hup)

theorem Inv.found {payload : ExecutionPayload} (heng : eng.Over l2 s.labels)
    (hahead : s.queue.safeHead.number < s.queue.unsafeHead.number)
    (hget : eng.payloadByNumber (s.queue.safeHead.number + 1) = .ok payload)
    (hread : payloadToBlockRef codec payload cfg.genesis = .ok ref) :
    l2.Ancestor ref.hash s.queue.unsafeHead.hash ∧
      l2.Ancestor s.queue.unsafeHead.hash s.labels.headBlockHash := by
  obtain ⟨hblock, hnumber, hhead⟩ := heng.found hget
  have hhas := L2Chain.has_of_block hblock hread
  obtain ⟨hhash, hrefNumber, -⟩ := payloadToBlockRef_fields hread
  rw [← hhash] at hhead
  have hnext : ref.number.toNat = s.queue.safeHead.number.toNat + 1 := by
    rw [hrefNumber, hnumber]
    bv_omega
  rcases h.head with hlatest | hsafe | ⟨other, err, hother, hparent, hfailed⟩
  · exact ⟨hhas.ancestor_of_number_le h.ordered.unsafeHead hhead hlatest (by bv_omega), hlatest⟩
  · -- the head of the engine is the safe head, which has no block above it
    rw [hsafe] at hhead
    have hle := hhas.number_le h.ordered.safeHead hhead
    bv_omega
  · -- the only block above the safe head is one that cannot be read
    obtain ⟨below, hbelow, hreadBelow⟩ := h.ordered.safeHead
    have hsucc := l2.number_succ hother (by rw [hparent, hbelow])
    rw [← (payloadToBlockRef_fields hreadBelow).2.1] at hsucc
    have hsame := Ancestor.eq_of_height_le hhead (by
      rw [L2Chain.height_of_block hother, hhas.height]
      omega)
    rw [← hsame, hhash, hblock] at hother
    cases hother
    rw [hread] at hfailed
    cases hfailed

theorem Inv.effect (heng : eng.Over l2 s.labels)
    (heffect : HeadsEffect codec cfg eng origin s.queue.MayLose s.queue s.labels out after) :
    Inv codec cfg l2 { queue := out.queue, labels := after } := by
  cases heffect with
  | idle hsame hlabels =>
    rcases hlabels with rfl | rfl
    · exact h.of_same hsame
    · obtain ⟨below, hbelow, -⟩ := h.ordered.safeHead
      have hlabels := ForkchoiceState.Ordered.of_update h.ordered.finalized
        (rfl : s.queue.safeForkchoice.finalizedBlockHash = _) hbelow h.ordered.finalized_safe
        (.refl _ _)
      exact (h.relabel hlabels (.inr (.inl rfl))).of_same hsame
  | ahead hsame hbuilt hwhy hlabels =>
    subst hlabels
    obtain ⟨hblock, hparent, hup, hordered, hfin⟩ := h.built heng hbuilt
    refine (h.relabel ⟨hordered, hfin⟩ ?_).of_same hsame
    rcases hwhy with hlose | ⟨err, hfailed⟩
    · rcases hlose with hattrs | hne | hsafe
      · exact absurd rfl hattrs
      · exact absurd rfl hne
      · left
        rw [hsafe]
        exact hup
    · exact .inr (.inr ⟨_, err, hblock, hparent, hfailed⟩)
  | offered hsame hoffers hlabels =>
    subst hlabels
    obtain ⟨-, -, hup, hordered, hfin⟩ := h.offered heng hoffers
    exact (h.relabel ⟨hordered, hfin⟩ (.inl hup)).of_same hsame
  | caughtUp hbehind =>
    have hle := h.ordered.safeHead.number_le h.ordered.unsafeHead h.ordered.safe_latest
    exact absurd hbehind (BitVec.not_lt.mpr hle)
  | consolidated hahead hget hparent hpromotes hlatest hlabels =>
    subst hlabels
    obtain ⟨hblock, -, -⟩ := heng.found hget
    obtain ⟨horder, hhead⟩ := h.found heng hahead hget hpromotes.readBack
    rw [← hlatest] at horder hhead
    refine h.promote hpromotes hblock hparent ?_ horder h.labels h.finalized hhead
    rw [hlatest]
    exact h.ordered.unsafeHead
  | forced hbuilt hpromotes hlatest hlabels =>
    subst hlabels
    obtain ⟨hblock, hparent, hup, hordered, hfin⟩ := h.built heng hbuilt
    refine h.promote hpromotes hblock hparent ?_ ?_ hordered ?_ ?_
    · rw [hlatest]
      exact L2Chain.has_of_block hblock hpromotes.readBack
    · rw [hlatest]
      exact .refl _ _
    · rw [hfin]
      exact .refl _ _
    · rw [hlatest, (payloadToBlockRef_fields hpromotes.readBack).1]
      exact .refl _ _
  | @adopted first ref hoffers hsame hlabels =>
    subst hlabels
    obtain ⟨hhas, hhash, hup, hordered, hfin⟩ := h.offered heng hoffers
    rw [← hhash] at hup
    have horder := Ancestor.trans h.ordered.safe_latest hup
    have hnext : Inv codec cfg l2
        { queue := { s.queue with unsafeHead := ref }
          labels := s.queue.unsafeForkchoice first } := by
      refine ⟨?_, hordered, .inl ?_, ?_, h.recorded⟩
      · exact ⟨h.ordered.finalized, h.ordered.safeHead, hhas, h.ordered.finalized_safe, horder⟩
      · show l2.Ancestor ref.hash first.blockHash
        rw [hhash]
        exact .refl _ _
      · rw [hfin]
        exact .refl _ _
    exact hnext.of_same hsame

theorem Inv.finalize (l1Origin : BlockID) :
    Inv codec cfg l2 { s with queue := s.queue.finalize l1Origin } ∧
      s.queue.finalized.number ≤ (s.queue.finalize l1Origin).finalized.number := by
  rcases s.queue.finalize_cases l1Origin with hsame | ⟨fd, hfd, -, hlt, hset⟩
  · have hheads : s.queue.SameHeads ((s.queue.finalize l1Origin).stop (.ok ())) := by
      rw [hsame]
      exact ⟨⟨_, _, _, rfl⟩, rfl⟩
    refine ⟨h.of_same hheads, ?_⟩
    rw [hsame]
    exact BitVec.le_refl _
  · rw [hset]
    obtain ⟨hhas, hanc⟩ := h.recorded fd hfd
    have hup := h.ordered.finalized.ancestor_of_number_le hhas h.ordered.finalized_safe hanc
      (BitVec.le_of_lt hlt)
    exact ⟨⟨⟨hhas, h.ordered.safeHead, h.ordered.unsafeHead, hanc, h.ordered.safe_latest⟩,
      h.labels, h.head, Ancestor.trans h.finalized hup, h.recorded⟩,
      BitVec.le_of_lt hlt⟩

theorem Inv.work (hwork : s.Work codec cfg l2 t) :
    t.Inv codec cfg l2 ∧ s.queue.finalized.number ≤ t.queue.finalized.number := by
  cases hwork with
  | step eng origin next after heng hlabels =>
    have heffect : HeadsEffect codec cfg eng origin _ _ _ _ _ := EngineQueue.step_heads hlabels
    refine ⟨h.effect heng heffect, ?_⟩
    have hfin := heffect.safe_cases.1
    dsimp only
    rw [hfin]
    exact BitVec.le_refl _
  | finalize l1Origin => exact h.finalize l1Origin
  | addUnsafePayload payloads =>
    have hheads : s.queue.SameHeads
        ({ s.queue with unsafePayloads := payloads }.stop (.ok ())) := ⟨⟨_, _, _, rfl⟩, rfl⟩
    exact ⟨h.of_same hheads, BitVec.le_refl _⟩
  | addSafeAttributes attrs =>
    have hheads : s.queue.SameHeads
        ({ s.queue with safeAttributes := s.queue.safeAttributes ++ [attrs] }.stop (.ok ())) :=
      ⟨⟨_, _, _, rfl⟩, rfl⟩
    exact ⟨h.of_same hheads, BitVec.le_refl _⟩

omit h in
theorem Inv.of_reset (hlabels : s.labels.Ordered cfg l2) (hreset : s.Reset codec cfg l2 t) :
    t.Inv codec cfg l2 ∧ t.queue.finalized.hash = s.labels.finalizedLabel cfg.genesis := by
  cases hreset with
  | reset answers heads origin hsource hpoint husable =>
    obtain ⟨hfin, hhash, hon⟩ :=
      findL2Heads_on hsource hlabels (EngineQueue.resetPoint_eq_ok hpoint)
    obtain ⟨hlatest, horder, hhead⟩ := hon.unsafeHead.resolve_left husable
    refine ⟨⟨?_, hlabels, .inl hhead, ?_, ?_⟩, hhash⟩
    · exact ⟨hfin, hon.safeHead, hlatest, hon.finalized_safe, horder⟩
    · show l2.Ancestor _ heads.finalized.hash
      rw [hhash]
      exact .refl _ _
    · intro fd hfd
      cases hfd

omit h in
theorem Inv.run {start : HeadsRun} (hstart : start.Start codec cfg l2)
    (hrun : Relation.ReflTransGen (Step codec cfg l2) start s) : s.Inv codec cfg l2 := by
  induction hrun with
  | refl =>
    obtain ⟨before, hlabels, hreset⟩ := hstart
    exact (Inv.of_reset hlabels hreset).1
  | tail _ hstep ih =>
    rcases hstep with hwork | hreset
    · exact (ih.work hwork).1
    · exact (Inv.of_reset ih.labels hreset).1

theorem Inv.reset_finalized_iff (hreset : s.Reset codec cfg l2 t) :
    s.queue.finalized.number ≤ t.queue.finalized.number ↔
      s.labels.finalizedLabel cfg.genesis = s.queue.finalized.hash := by
  obtain ⟨hinv, hhash⟩ := Inv.of_reset h.labels hreset
  constructor
  · intro hle
    apply Ancestor.eq_of_height_le h.finalized
    rw [h.ordered.finalized.height, ← hhash, hinv.ordered.finalized.height]
    exact hle
  · intro hsame
    rw [h.ordered.finalized.unique hinv.ordered.finalized (by rw [hhash, hsame])]
    exact BitVec.le_refl _

end HeadsRun

/-- Along every run the heads are in order. Work never lowers the finalized block, and a reset
lowers it exactly if the engine was not told of it: the block is set in memory, and the next
forkchoice update carries it. -/
theorem heads_ordered_finality_kept_iff {start : HeadsRun} (hstart : start.Start codec cfg l2)
    (hrun : Relation.ReflTransGen (HeadsRun.Step codec cfg l2) start s) :
    s.queue.Ordered codec cfg l2 ∧
    (s.queue.finalized.number ≤ s.queue.safeHead.number ∧
      s.queue.safeHead.number ≤ s.queue.unsafeHead.number) ∧
    (∀ t, s.Work codec cfg l2 t → s.queue.finalized.number ≤ t.queue.finalized.number) ∧
    ∀ t, s.Reset codec cfg l2 t →
      (s.queue.finalized.number ≤ t.queue.finalized.number ↔
        s.labels.finalizedLabel cfg.genesis = s.queue.finalized.hash) := by
  have hinv := HeadsRun.Inv.run hstart hrun
  refine ⟨hinv.ordered, ⟨?_, ?_⟩, fun t hwork => (hinv.work hwork).2,
    fun t hreset => hinv.reset_finalized_iff hreset⟩
  · exact hinv.ordered.finalized.number_le hinv.ordered.safeHead hinv.ordered.finalized_safe
  · exact hinv.ordered.safeHead.number_le hinv.ordered.unsafeHead hinv.ordered.safe_latest

end Steps

section Source

variable (l2 : L2Chain) (codec : TxCodec) (genesis : Genesis)

def L2Chain.refAt (h : Hash) : Except QueryError L2BlockRef :=
  match l2.block h with
  | none => .error .notFound
  | some payload => match payloadToBlockRef codec payload genesis with
    | .error err => .error (.other err)
    | .ok ref => .ok ref

def L2Chain.labelled (h : Hash) : Except QueryError L2BlockRef :=
  if h = 0 then .error .notFound
  else match l2.refAt codec genesis h with
    | .error .notFound => .error (.other "unknown block")
    | answer => answer

def L2Chain.source (labels : ForkchoiceState) : L2Source where
  byHash := l2.refAt codec genesis
  byLabel
    | .latest => l2.labelled codec genesis labels.headBlockHash
    | .safe => l2.labelled codec genesis labels.safeBlockHash
    | .finalized => l2.labelled codec genesis labels.finalizedBlockHash

end Source

variable {h : Hash} {ref : L2BlockRef} {genesis : Genesis}

theorem L2Chain.refAt_eq_ok (hget : l2.refAt codec genesis h = .ok ref) :
    l2.Has codec genesis ref ∧ ref.hash = h := by
  unfold refAt at hget
  split at hget
  next => cases hget
  next payload hblock =>
    split at hget
    next => cases hget
    next found hread =>
      cases hget
      have hsame : ref.hash = h := (payloadToBlockRef_fields hread).1.trans (l2.hash_eq hblock)
      exact ⟨⟨payload, by rw [hsame, hblock], hread⟩, hsame⟩

theorem L2Chain.labelled_eq_ok (hget : l2.labelled codec genesis h = .ok ref) :
    l2.Has codec genesis ref ∧ h ≠ 0 ∧ ref.hash = h := by
  obtain ⟨hne, hget⟩ := of_ite_eq (by simp) hget
  split at hget
  next => cases hget
  next =>
    obtain ⟨hhas, hsame⟩ := refAt_eq_ok hget
    exact ⟨hhas, hne, hsame⟩

theorem L2Chain.labelled_notFound (hget : l2.labelled codec genesis h = .error .notFound) :
    h = 0 := by
  by_contra hne
  rw [labelled, if_neg hne] at hget
  split at hget
  next => cases hget
  next hother => exact hother hget

theorem L2Chain.source_over (l2 : L2Chain) (codec : TxCodec) (cfg : Config)
    (labels : ForkchoiceState) : (l2.source codec cfg.genesis labels).Over codec cfg l2 labels := by
  refine ⟨refAt_eq_ok, ?_, labelled_eq_ok, labelled_notFound, labelled_eq_ok, labelled_notFound⟩
  intro ref hget
  obtain ⟨hhas, -, hsame⟩ := labelled_eq_ok hget
  exact ⟨hhas, hsame⟩

def orderTx : Bytes :=
  match l1InfoDepositBytes epochKeccak256 depositCodec 1 ⟨0xa0, 0x9f, 90, 900, 1, 7⟩ with
  | .ok tx => tx
  | .error _ => []

def orderAttributes : PayloadAttributes where
  timestamp := 1002
  prevRandao := 1
  suggestedFeeRecipient := 0x4200000000000000000000000000000000000011
  transactions := [orderTx]
  noTxPool := true

def orderGenesis : ExecutionPayload := ⟨0, 0, 0, 0, 30000000, 1000, [], 0xc0, []⟩

def orderRef (payload : ExecutionPayload) (sequenceNumber : Uint64) : L2BlockRef :=
  ⟨payload.blockHash, payload.blockNumber, payload.parentHash, payload.timestamp, ⟨0xa0, 90⟩,
    sequenceNumber⟩

def orderPayload : ExecutionPayload := orderAttributes.block (orderRef orderGenesis 0) 0xc1

def orderChain : L2Chain where
  block h := if h = 0xc0 then some orderGenesis else if h = 0xc1 then some orderPayload else none
  hash_eq := by
    intro h payload hblock
    split at hblock
    next heq =>
      cases hblock
      exact heq.symm
    next =>
      split at hblock
      next heq =>
        cases hblock
        exact heq.symm
      next => cases hblock
  number_succ := by
    intro h payload parent hblock hparent
    split at hblock
    next =>
      cases hblock
      cases hparent
    next =>
      split at hblock
      next =>
        cases hblock
        cases hparent
        rfl
      next => cases hblock
  zero := rfl

def orderEngine : EngineAnswers :=
  engineFor (fun fc _ => fc.headBlockHash = 0xc0) orderPayload
    (fun payload => if payload = orderPayload then .valid else .invalid) (.error .notFound)

theorem over_orderEngine (labels : ForkchoiceState) : orderEngine.Over orderChain labels := by
  refine ⟨?_, ?_, ?_⟩
  · intro payload hvalid
    have hstatus := Except.ok.inj hvalid
    dsimp only at hstatus
    split at hstatus
    next heq =>
      subst heq
      rfl
    next => cases hstatus
  · intro fc payload hbuilt
    obtain ⟨attrs, fcRes, id, hstart, -, hget⟩ := hbuilt.built
    rw [of_decide_eq_true (engineFor_starts hstart).1, ← Except.ok.inj hget]
    rfl
  · intro number payload hget
    cases hget

def orderAnswers (labels : ForkchoiceState) : ResetAnswers where
  l1 number :=
    if number = 90 then .ok ⟨0xa0, 90, 0x9f, 900⟩
    else if number = 0 then .ok ⟨0xd0, 0, 0, 0⟩
    else .error .notFound
  l1ByHash _ := .ok ⟨0xa0, 90, 0x9f, 900⟩
  l2 := orderChain.source depositCodec devnetConfig.genesis labels

def orderReset (s : HeadsRun) (unsafeHead : L2BlockRef) : HeadsRun :=
  { s with
    queue := s.queue.setHeads
      { unsafeHead
        safeHead := orderRef orderGenesis 0
        finalized := orderRef orderGenesis 0 } }

theorem reset_orderReset {s : HeadsRun} {unsafeHead : L2BlockRef}
    (hpoint : EngineQueue.resetPoint devnetConfig (orderAnswers s.labels) =
      .ok ({ unsafeHead
             safeHead := orderRef orderGenesis 0
             finalized := orderRef orderGenesis 0 },
        ⟨0xd0, 0, 0, 0⟩))
    (husable : unsafeHead ≠ L2BlockRef.zero) :
    s.Reset depositCodec devnetConfig orderChain (orderReset s unsafeHead) :=
  .reset (orderAnswers s.labels) _ _ (L2Chain.source_over _ _ _ _) hpoint husable

def orderBefore : HeadsRun where
  queue := epochQueue
  labels := ⟨0xc0, 0, 0⟩

def orderStart : HeadsRun := orderReset orderBefore (orderRef orderGenesis 0)

def orderPending : HeadsRun :=
  { orderStart with queue := { orderStart.queue with safeAttributes := [orderAttributes] } }

def orderSafe : HeadsRun where
  queue := { orderStart.queue with
    safeHead := orderRef orderPayload 1
    unsafeHead := orderRef orderPayload 1
    finalityData :=
      [{ l2Block := orderRef orderPayload 1, l1Block := ⟨0xb2, 102⟩ }] }
  labels := ⟨0xc1, 0xc1, 0xc0⟩

def orderFinal : HeadsRun :=
  { orderSafe with queue := orderSafe.queue.finalize ⟨0xb3, 103⟩ }

theorem start_orderStart : orderStart.Start depositCodec devnetConfig orderChain := by
  have hlabels : orderBefore.labels.Ordered devnetConfig orderChain := by
    refine ⟨?_, ?_⟩
    · exact Ancestor.refl _ 0xc0
    · exact Ancestor.refl _ 0xc0
  exact ⟨orderBefore, hlabels, reset_orderReset (by decide +kernel) (by decide +kernel)⟩

abbrev OrderReaches : HeadsRun → Prop :=
  Relation.ReflTransGen (HeadsRun.Step depositCodec devnetConfig orderChain) orderStart

theorem run_orderSafe : OrderReaches orderSafe := by
  have hfirst : orderStart.Work depositCodec devnetConfig orderChain orderPending :=
    .step orderEngine L1BlockRef.zero (.ok orderAttributes) _ (over_orderEngine _) .nil
  have hcalls : orderPending.queue.calls depositCodec devnetConfig orderEngine (.error .eof) =
      [.forkchoiceUpdate ⟨0xc0, 0xc0, 0xc0⟩ (some orderAttributes),
        .getPayload 1, .newPayload orderPayload,
        .forkchoiceUpdate orderSafe.labels none] := by decide +kernel
  have hlabels : Relabels orderEngine orderPending.queue.MayLose orderPending.labels
      (orderPending.queue.calls depositCodec devnetConfig orderEngine (.error .eof))
      orderSafe.labels := by
    rw [hcalls]
    refine .accepted ⟨_, rfl, rfl⟩ (.other ?_ (.other ?_ (.accepted ⟨_, rfl, rfl⟩ .nil)))
    · intro fc attrs h
      cases h
    · intro fc attrs h
      cases h
  have hqueue : (orderPending.queue.step depositCodec devnetConfig orderEngine
      ⟨0xb2, 102, 0xb1, 1024⟩ (.error .eof)).queue =
      orderSafe.queue := by decide +kernel
  have hsecond := HeadsRun.Work.step orderEngine ⟨0xb2, 102, 0xb1, 1024⟩ _ _
    (over_orderEngine orderPending.labels) hlabels
  rw [hqueue] at hsecond
  exact (Relation.ReflTransGen.refl.tail (.inl hfirst)).tail (.inl hsecond)

theorem run_orderFinal : OrderReaches orderFinal :=
  run_orderSafe.tail (.inl (.finalize ⟨0xb3, 103⟩))

theorem finalized_regresses :
    orderStart.Start depositCodec devnetConfig orderChain ∧
    OrderReaches orderFinal ∧
    orderFinal.Reset depositCodec devnetConfig orderChain
      (orderReset orderFinal (orderRef orderPayload 1)) ∧
    orderFinal.queue.finalized.number = 1 ∧
    (orderReset orderFinal (orderRef orderPayload 1)).queue.finalized.number = 0 :=
  ⟨start_orderStart, run_orderFinal, reset_orderReset (by decide +kernel) (by decide +kernel),
    by decide +kernel, by decide +kernel⟩

theorem heads_ordered_finality_kept_sample :
    orderSafe.queue.safeHead.number = 1 ∧
    orderSafe.queue.Ordered depositCodec devnetConfig orderChain ∧
    orderSafe.queue.finalized.number ≤
      (orderReset orderSafe (orderRef orderPayload 1)).queue.finalized.number := by
  obtain ⟨hordered, -, -, hreset⟩ :=
    heads_ordered_finality_kept_iff start_orderStart run_orderSafe
  refine ⟨rfl, hordered, (hreset _ ?_).mpr rfl⟩
  exact reset_orderReset (by decide +kernel) (by decide +kernel)

end Derive
