import TokamakTitan.Library.Ancestry
import TokamakTitan.Derive.BatchValidity
import TokamakTitan.Derive.DepositsOnce
import TokamakTitan.Derive.Heads

/-! Finality of L2 blocks: where the L1 data of a block comes from when a finality signal marks it,
along every run of the attributes and engine queues. -/
namespace Derive
open Ancestry.Forest List

namespace L1Chain

def forest (l1 : L1Chain) : Ancestry.Forest Hash :=
  .ofBlocks l1.block (fun b => b.info.parentHash) (fun b => b.info.number.toNat) l1.number_succ

def Ancestor (l1 : L1Chain) (a b : Hash) : Prop := l1.forest.Ancestor a b

def Names (l1 : L1Chain) (id : BlockID) : Prop :=
  ∃ b, l1.block id.hash = some b ∧ b.info.id = id

end L1Chain

def Stages.Pending (stages : Stages) : Prop :=
  stages.batch ≠ none ∨ stages.queue.safeAttributes ≠ []

instance (stages : Stages) : Decidable stages.Pending :=
  inferInstanceAs (Decidable (_ ∨ _))

/-- A run with the L1 block of the pipeline. `source` is where the pipeline was when it derived the
pending work: the L1 data of that work is in `source` and its ancestors. `derived` are the safe
blocks since the last reset, with their sources, on top of `base`. -/
structure FinalityRun where
  stages : Stages
  origin : L1BlockRef
  source : L1BlockRef
  base : L2BlockRef
  derived : List (L2BlockRef × L1BlockRef)

structure EngineAnswers.Extends (eng : EngineAnswers) (parent : L2BlockRef) : Prop where
  built : ∀ {fc payload}, Built eng fc payload → fc.headBlockHash = parent.hash →
    payload.parentHash = parent.hash ∧ payload.blockNumber.toNat = parent.number.toNat + 1
  found : ∀ {payload}, eng.payloadByNumber (parent.number + 1) = .ok payload →
    payload.parentHash = parent.hash → payload.blockNumber.toNat = parent.number.toNat + 1

inductive SafeChain (base : L2BlockRef) : List (L2BlockRef × L1BlockRef) → L2BlockRef → Prop
  | nil : SafeChain base [] base
  | cons {derived : List (L2BlockRef × L1BlockRef)} {parent ref : L2BlockRef}
      {source : L1BlockRef} (hchain : SafeChain base derived parent)
      (hparent : ref.parentHash = parent.hash)
      (hnumber : ref.number.toNat = parent.number.toNat + 1) :
      SafeChain base ((ref, source) :: derived) ref

namespace FinalityRun

def start (queue : EngineQueue) (origin : L1BlockRef) : FinalityRun where
  stages := { batch := none, queue := { queue with safeAttributes := [], finalityData := [] } }
  origin
  source := origin
  base := queue.safeHead
  derived := []

def onQueue (s : FinalityRun) (f : EngineQueue → EngineQueue) : FinalityRun :=
  { s with stages := { s.stages with queue := f s.stages.queue } }

/-- The block is a safe block since the last reset, the safe head or an ancestor of it. -/
def OnSafeChain (s : FinalityRun) (block : L2BlockRef) : Prop :=
  SafeChain s.base s.derived s.stages.queue.safeHead ∧ ∃ source, (block, source) ∈ s.derived

def DerivedWithin (l1 : L1Chain) (s : FinalityRun) (block : L2BlockRef) (signal : BlockID) : Prop :=
  ∀ source, (block, source) ∈ s.derived → l1.Ancestor source.hash signal.hash

section Runs

variable (keccak : Bytes → Hash) (codec : TxCodec) (cfg : Config) (l1 : L1Chain)

def derive (inputs : StepInputs) (s : FinalityRun) : FinalityRun :=
  let next := s.stages.step keccak codec cfg inputs
  let source := if s.stages.Pending then s.source else s.origin
  { s with
    stages := { batch := next.1, queue := next.2.queue }
    source
    derived := next.2.promoted.toList.map (fun _ => (next.2.queue.safeHead, source)) ++ s.derived }

def reset (heads : FindHeadsResult) (origin : L1BlockRef) (s : FinalityRun) : FinalityRun :=
  { s with
    stages := { s.stages with queue := s.stages.queue.setHeads heads }
    origin
    base := heads.safeHead
    derived := [] }

/-- The pipeline moves to the next L1 block when a step is out of data. A reset comes when nothing
is pending. -/
inductive Step (s : FinalityRun) : FinalityRun → Prop
  | derive (inputs : StepInputs) (horigin : inputs.prev.origin = s.origin)
      (hextends : inputs.eng.Extends s.stages.queue.safeHead) :
      Step s (s.derive keccak codec cfg inputs)
  | advance (inputs : StepInputs) (next : L1BlockRef) (horigin : inputs.prev.origin = s.origin)
      (hextends : inputs.eng.Extends s.stages.queue.safeHead)
      (heof : (s.stages.step keccak codec cfg inputs).2.result = .error .eof)
      (hknown : l1.Has next) (hchild : next.parentHash = s.origin.hash) :
      Step s { s.derive keccak codec cfg inputs with origin := next }
  | finalize (l1Origin : BlockID) : Step s (s.onQueue fun eq => eq.finalize l1Origin)
  | setUnsafeHead (head : L2BlockRef) : Step s (s.onQueue fun eq => eq.setUnsafeHead head)
  | addUnsafePayload (payloads : List ExecutionPayload) :
      Step s (s.onQueue fun eq => { eq with unsafePayloads := payloads })
  | reset (answers : ResetAnswers) (heads : FindHeadsResult) (origin : L1BlockRef)
      (hreset : EngineQueue.resetPoint cfg answers = .ok (heads, origin))
      (hidle : ¬ s.stages.Pending) (hknown : l1.Has origin) : Step s (s.reset heads origin)

end Runs

/-- Recorded safe blocks were derived from L1 blocks at or below the origin. -/
structure Inv (l1 : L1Chain) (s : FinalityRun) : Prop where
  origin : l1.Has s.origin
  source : s.stages.Pending → s.source = s.origin
  chain : SafeChain s.base s.derived s.stages.queue.safeHead
  recorded : ∀ fd ∈ s.stages.queue.finalityData, ∃ source, (fd.l2Block, source) ∈ s.derived ∧
    fd.l1Block = source.id ∧ l1.Has source ∧ l1.Ancestor source.hash s.origin.hash

end FinalityRun

variable {origin : L1BlockRef}

section Ancestors

variable {l1 : L1Chain}

theorem L1Chain.Has.height {ref : L1BlockRef} (h : l1.Has ref) :
    l1.forest.height ref.hash = ref.number.toNat := by
  obtain ⟨block, hblock, rfl⟩ := h
  exact height_ofBlocks hblock

theorem L1Chain.Names.height {id : BlockID} (h : l1.Names id) :
    l1.forest.height id.hash = id.number.toNat := by
  obtain ⟨block, hblock, rfl⟩ := h
  exact height_ofBlocks hblock

theorem L1Chain.Has.ancestor_child {parent child : L1BlockRef} (hparent : l1.Has parent)
    (hchild : l1.Has child) (hlink : child.parentHash = parent.hash) :
    l1.Ancestor parent.hash child.hash := by
  obtain ⟨x, hx, rfl⟩ := hparent
  obtain ⟨y, hy, rfl⟩ := hchild
  have hup : l1.block y.info.parentHash = some x := (congrArg l1.block hlink).trans hx
  have hstep : l1.forest.parent y.info.hash = some y.info.parentHash :=
    parent_ofBlocks hy hup
  exact .of_parent (hstep.trans (congrArg some hlink))

theorem L1Chain.Has.eq_of_ancestor {source : L1BlockRef} (hsource : l1.Has source)
    (horigin : l1.Has origin) (h : l1.Ancestor source.hash origin.hash)
    (hle : origin.number ≤ source.number) : source = origin := by
  apply hsource.unique horigin
  apply Ancestor.eq_of_height_le h
  rw [hsource.height, horigin.height]
  exact hle

end Ancestors

section Eof

variable {keccak : Bytes → Hash} {codec : TxCodec} {cfg : Config} {inputs : StepInputs}
  {stages : Stages} {head : L2BlockRef} {dl : L1Answers}

theorem createNextAttributes_ne_eof {batch : BatchData} :
    createNextAttributes keccak codec cfg dl batch head ≠ .error .eof := by
  intro h
  unfold createNextAttributes at h
  obtain ⟨-, h⟩ := of_ite_eq (by simp) h
  rcases Checked.bind_eq_error.mp h with hprepare | ⟨attrs, -, hpure⟩
  · unfold preparePayloadAttributes at hprepare
    rcases Checked.bind_eq_error.mp hprepare with hepoch | ⟨data, -, hinfo⟩
    · unfold epochData openEpoch stayInEpoch at hepoch
      split at hepoch
      · split at hepoch
        · cases hepoch
        · split at hepoch
          · cases hepoch
          · split at hepoch
            · cases hepoch
            · cases hepoch
            · split at hepoch <;> cases hepoch
      · split at hepoch
        · cases hepoch
        · split at hepoch <;> cases hepoch
    · dsimp only at hinfo
      split at hinfo <;> cases hinfo
  · cases hpure

theorem nextAttributes_eof {prev : Except Error BatchData} {kept batch : Option BatchData}
    (h : nextAttributes keccak codec cfg dl prev kept head = (batch, .error .eof)) :
    batch = none := by
  unfold nextAttributes at h
  split at h
  next =>
    cases h
    rfl
  next used hused =>
    split at h
    next err hcreate =>
      cases h
      exact absurd hcreate createNextAttributes_ne_eof
    next => cases h

variable {eng : EngineAnswers}

theorem EngineQueue.forceNextSafeAttributes_ne_eof (eq : EngineQueue) :
    (eq.forceNextSafeAttributes codec cfg eng origin).result ≠ .error .eof := by
  unfold forceNextSafeAttributes
  intro h
  split at h
  next => cases h
  next =>
    dsimp only at h
    split at h
    next => cases h
    next => cases h
    next => split at h <;> cases h
    next => cases h
    next => split at h <;> cases h

theorem EngineQueue.tryNextSafeAttributes_ne_eof (eq : EngineQueue) :
    (eq.tryNextSafeAttributes codec cfg eng origin).result ≠ .error .eof := by
  unfold tryNextSafeAttributes consolidateNextSafeAttributes
  intro h
  split at h
  next =>
    split at h
    next => cases h
    next => cases h
    next =>
      split at h
      next => cases h
      next =>
        split at h
        next => exact eq.forceNextSafeAttributes_ne_eof h
        next => split at h <;> cases h
  next =>
    split at h
    next => exact eq.forceNextSafeAttributes_ne_eof h
    next => cases h

theorem Stages.step_eof (h : (stages.step keccak codec cfg inputs).2.result = .error .eof) :
    ¬ Stages.Pending
      { batch := (stages.step keccak codec cfg inputs).1
        queue := (stages.step keccak codec cfg inputs).2.queue } := by
  rcases hasked : nextAttributes keccak codec cfg inputs.dl inputs.prev.nextBatch
    stages.batch stages.queue.safeHead with ⟨left, answer⟩
  rw [Stages.step_eq hasked] at h ⊢
  dsimp only at h ⊢
  unfold Stages.Pending
  rw [not_or, not_not, not_not]
  unfold EngineQueue.step at h ⊢
  split at h
  next => exact absurd h stages.queue.tryNextSafeAttributes_ne_eof
  next hempty =>
    rw [if_neg hempty, if_neg hempty]
    rw [not_not] at hempty
    cases answer with
    | ok => cases h
    | error err =>
      cases err with
      | eof =>
        refine ⟨nextAttributes_eof hasked, ?_⟩
        dsimp only
        split
        next =>
          cases stages.queue.tryNextUnsafePayload_effect with
          | idle _ hattrs => rw [hattrs, hempty]
          | stripped hold => rw [hempty] at hold; cases hold
          | promoted hold => rw [hempty] at hold; cases hold
        next => exact hempty
      | _ => cases h

end Eof

section Soundness

variable {keccak : Bytes → Hash} {codec : TxCodec} {cfg : Config} {l1 : L1Chain}
  {s t : FinalityRun} {inputs : StepInputs}

namespace SafeChain

variable {base head : L2BlockRef} {derived : List (L2BlockRef × L1BlockRef)}

theorem number_le (h : SafeChain base derived head) :
    ∀ entry ∈ derived, entry.1.number.toNat ≤ head.number.toNat := by
  induction h with
  | nil =>
    intro entry hentry
    cases hentry
  | cons _ _ hnumber ih =>
    intro entry hentry
    rcases mem_cons.mp hentry with rfl | hold
    · exact le_refl _
    · have hle := ih entry hold
      omega

theorem source_unique (h : SafeChain base derived head) {block : L2BlockRef}
    {first second : L1BlockRef} (hfirst : (block, first) ∈ derived)
    (hsecond : (block, second) ∈ derived) : first = second := by
  induction h with
  | nil => cases hfirst
  | cons hchain _ hnumber ih =>
    rcases mem_cons.mp hfirst with hnew | hold
    · cases hnew
      rcases mem_cons.mp hsecond with hnew | hold
      · cases hnew
        rfl
      · have hle := hchain.number_le _ hold
        dsimp only at hle
        omega
    · rcases mem_cons.mp hsecond with hnew | hold'
      · cases hnew
        have hle := hchain.number_le _ hold
        dsimp only at hle
        omega
      · exact ih hold hold'

end SafeChain

namespace FinalityRun

theorem derive_cases (hextends : inputs.eng.Extends s.stages.queue.safeHead) :
    let t := s.derive keccak codec cfg inputs
    (t.stages.queue.safeHead = s.stages.queue.safeHead ∧ t.derived = s.derived ∧
      t.stages.queue.finalityData = s.stages.queue.finalityData) ∨
    (s.stages.Pending ∧ t.derived = (t.stages.queue.safeHead, s.source) :: s.derived ∧
      t.stages.queue.safeHead.parentHash = s.stages.queue.safeHead.hash ∧
      t.stages.queue.safeHead.number.toNat = s.stages.queue.safeHead.number.toNat + 1 ∧
      t.stages.queue.finalityData = EngineQueue.recordFinality s.stages.queue.finalityData
        t.stages.queue.safeHead inputs.prev.origin) := by
  rcases hasked : nextAttributes keccak codec cfg inputs.dl inputs.prev.nextBatch
    s.stages.batch s.stages.queue.safeHead with ⟨left, answer⟩
  obtain ⟨after, hafter⟩ := @exists_relabels inputs.eng (fun _ _ => False)
    (s.stages.queue.calls codec cfg inputs.eng answer) s.stages.queue.safeForkchoice
  have heffect : HeadsEffect codec cfg inputs.eng inputs.prev.origin _ _ _ _ _ :=
    EngineQueue.step_heads hafter
  unfold derive
  rw [Stages.step_eq hasked]
  dsimp only
  generalize s.stages.queue.step codec cfg inputs.eng inputs.prev.origin answer = out at heffect ⊢
  rcases heffect.safe_cases.2 with ⟨hhead, hdata, hnone⟩ | ⟨payload, hpromotes, hsource⟩
  · rw [hnone]
    exact .inl ⟨hhead, rfl, hdata⟩
  · have hpending : s.stages.Pending := .inr hpromotes.pending
    have hnext : payload.parentHash = s.stages.queue.safeHead.hash ∧
        payload.blockNumber.toNat = s.stages.queue.safeHead.number.toNat + 1 := by
      rcases hsource with ⟨hget, hparent⟩ | hbuilt
      · exact ⟨hparent, hextends.found hget hparent⟩
      · exact hextends.built hbuilt rfl
    obtain ⟨-, hrefNumber, hrefParent⟩ := payloadToBlockRef_fields hpromotes.readBack
    refine .inr ⟨hpending, ?_, hrefParent.trans hnext.1, ?_, hpromotes.finalityData⟩
    · rw [hpromotes.promoted, if_pos hpending]
      rfl
    · rw [hrefNumber, hnext.2]

theorem Inv.derive {next : L1BlockRef} (h : s.Inv l1) (horigin : inputs.prev.origin = s.origin)
    (hextends : inputs.eng.Extends s.stages.queue.safeHead) (hknown : l1.Has next)
    (hnext : l1.Ancestor s.origin.hash next.hash)
    (hpending : (s.derive keccak codec cfg inputs).stages.Pending → next = s.origin) :
    Inv l1 { s.derive keccak codec cfg inputs with origin := next } := by
  have hsource : (s.derive keccak codec cfg inputs).source = s.origin := by
    unfold FinalityRun.derive
    dsimp only
    split
    next hold => exact h.source hold
    next => rfl
  have hrecorded : ∀ {derived : List (L2BlockRef × L1BlockRef)} {fd : FinalityData},
      fd ∈ s.stages.queue.finalityData → s.derived ⊆ derived →
      ∃ source, (fd.l2Block, source) ∈ derived ∧ fd.l1Block = source.id ∧ l1.Has source ∧
        l1.Ancestor source.hash next.hash := by
    intro derived fd hfd hsub
    obtain ⟨source, hmem, hid, hhas, hanc⟩ := h.recorded fd hfd
    exact ⟨source, hsub hmem, hid, hhas, Ancestor.trans hanc hnext⟩
  rcases @derive_cases keccak codec cfg s inputs hextends with
    ⟨hhead, hderived, hdata⟩ | ⟨hwas, hderived, hparent, hnumber, hdata⟩
  · refine ⟨hknown, fun hnow => hsource.trans (hpending hnow).symm, ?_, ?_⟩
    · show SafeChain s.base (s.derive keccak codec cfg inputs).derived
        (s.derive keccak codec cfg inputs).stages.queue.safeHead
      rw [hhead, hderived]
      exact h.chain
    · intro fd hfd
      rw [hdata] at hfd
      rw [hderived]
      exact hrecorded hfd (Subset.refl _)
  · have horigin' : s.source = s.origin := h.source hwas
    refine ⟨hknown, fun hnow => hsource.trans (hpending hnow).symm, ?_, ?_⟩
    · show SafeChain s.base (s.derive keccak codec cfg inputs).derived
        (s.derive keccak codec cfg inputs).stages.queue.safeHead
      rw [hderived]
      exact .cons h.chain hparent hnumber
    · intro fd hfd
      rw [hdata] at hfd
      rw [hderived, horigin']
      rcases EngineQueue.mem_recordFinality hfd with hold | rfl | ⟨last, hlast, hle, rfl⟩
      · exact hrecorded hold (subset_cons_self _ _)
      · exact ⟨s.origin, mem_cons_self, congrArg L1BlockRef.id horigin, h.origin, hnext⟩
      · obtain ⟨source, -, hid, hhas, hanc⟩ := h.recorded last hlast
        -- the entry that is replaced is the one of the current L1 block
        have hsame : source = s.origin := by
          apply hhas.eq_of_ancestor h.origin hanc
          rw [hid, horigin] at hle
          exact hle
        exact ⟨s.origin, mem_cons_self, hsame ▸ hid, h.origin, hnext⟩

theorem Inv.onQueue {f : EngineQueue → EngineQueue} (h : s.Inv l1)
    (hhead : (f s.stages.queue).safeHead = s.stages.queue.safeHead)
    (hattrs : (f s.stages.queue).safeAttributes = s.stages.queue.safeAttributes)
    (hdata : (f s.stages.queue).finalityData = s.stages.queue.finalityData) :
    (s.onQueue f).Inv l1 := by
  refine ⟨h.origin, ?_, ?_, ?_⟩
  · intro hpending
    apply h.source
    rcases hpending with hbatch | hold
    · exact .inl hbatch
    · exact .inr (hattrs ▸ hold)
  · show SafeChain s.base s.derived (f s.stages.queue).safeHead
    rw [hhead]
    exact h.chain
  · intro fd hfd
    exact h.recorded fd (hdata ▸ hfd)

theorem Inv.next (h : s.Inv l1) (hstep : s.Step keccak codec cfg l1 t) : t.Inv l1 := by
  cases hstep with
  | derive inputs horigin hextends =>
    exact h.derive horigin hextends h.origin (.refl _ _) fun _ => rfl
  | advance inputs next horigin hextends heof hknown hchild =>
    refine h.derive horigin hextends hknown (h.origin.ancestor_child hknown hchild) ?_
    intro hpending
    exact absurd hpending (Stages.step_eof heof)
  | finalize l1Origin =>
    apply h.onQueue (by simp) (by simp)
    rcases s.stages.queue.finalize_cases l1Origin with hsame | ⟨fd, -, -, -, hset⟩
    · rw [hsame]
    · rw [hset]
  | setUnsafeHead => exact h.onQueue rfl rfl rfl
  | addUnsafePayload => exact h.onQueue rfl rfl rfl
  | reset answers heads origin hreset hidle hknown =>
    refine ⟨hknown, fun hpending => absurd hpending hidle, .nil, ?_⟩
    intro fd hfd
    cases hfd

theorem Inv.run {queue : EngineQueue} (horigin : l1.Has origin)
    (hrun : Relation.ReflTransGen (Step keccak codec cfg l1) (start queue origin) s) :
    s.Inv l1 := by
  induction hrun with
  | refl =>
    refine ⟨horigin, fun _ => rfl, .nil, ?_⟩
    intro fd hfd
    cases hfd
  | tail _ hstep ih => exact ih.next hstep

variable {fd : FinalityData}

theorem Inv.derivedWithin_iff (h : s.Inv l1) (signal : BlockID)
    (hfd : fd ∈ s.stages.queue.finalityData) :
    s.DerivedWithin l1 fd.l2Block signal ↔ l1.Ancestor fd.l1Block.hash signal.hash := by
  obtain ⟨source, hmem, hid, -, -⟩ := h.recorded fd hfd
  rw [hid]
  constructor
  · intro hwithin
    exact hwithin source hmem
  · intro hanc other hother
    rw [h.chain.source_unique hother hmem]
    exact hanc

theorem Inv.ancestor_of_number_le (h : s.Inv l1) {signal : BlockID}
    (hfd : fd ∈ s.stages.queue.finalityData) (hle : fd.l1Block.number ≤ signal.number)
    (hsignal : l1.Names signal)
    (hone : l1.Ancestor s.origin.hash signal.hash ∨ l1.Ancestor signal.hash s.origin.hash) :
    l1.Ancestor fd.l1Block.hash signal.hash := by
  obtain ⟨source, -, hid, hhas, hanc⟩ := h.recorded fd hfd
  rw [hid]
  rcases hone with hbefore | hafter
  · exact Ancestor.trans hanc hbefore
  · apply Ancestor.of_height_le hanc hafter
    rw [hhas.height, hsignal.height]
    rw [hid] at hle
    exact hle

end FinalityRun

/-- A signal finalizes a safe block, or none. All L1 data of the block is in the signalled L1 block
and its ancestors exactly if the L1 block recorded for it is one of these, of which the number is
compared and not the hash. It is if the pipeline is on the signalled chain. -/
theorem finalize_sound_iff {queue : EngineQueue} {origin : L1BlockRef} {signal : BlockID}
    (horigin : l1.Has origin)
    (hrun : Relation.ReflTransGen (FinalityRun.Step keccak codec cfg l1)
      (FinalityRun.start queue origin) s)
    (hset : (s.stages.queue.finalize signal).finalized ≠ s.stages.queue.finalized) :
    ∃ fd ∈ s.stages.queue.finalityData, (s.stages.queue.finalize signal).finalized = fd.l2Block ∧
      s.OnSafeChain fd.l2Block ∧ fd.l1Block.number ≤ signal.number ∧
      (s.DerivedWithin l1 fd.l2Block signal ↔ l1.Ancestor fd.l1Block.hash signal.hash) ∧
      (l1.Names signal →
        l1.Ancestor s.origin.hash signal.hash ∨ l1.Ancestor signal.hash s.origin.hash →
        s.DerivedWithin l1 fd.l2Block signal) := by
  have hinv := FinalityRun.Inv.run horigin hrun
  rcases s.stages.queue.finalize_cases signal with hsame | ⟨fd, hfd, hle, -, hfinal⟩
  · rw [hsame] at hset
    exact absurd rfl hset
  · have hiff := hinv.derivedWithin_iff signal hfd
    obtain ⟨source, hmem, -⟩ := hinv.recorded fd hfd
    refine ⟨fd, hfd, by rw [hfinal], ⟨hinv.chain, source, hmem⟩, hle, hiff, ?_⟩
    intro hsignal hone
    exact hiff.mpr (hinv.ancestor_of_number_le hfd hle hsignal hone)

end Soundness

def forkL1 : L1Chain :=
  .ofBlocks
    [⟨⟨0xb1, 0xa1, 101, 1012, 2, 8⟩, []⟩, ⟨⟨0xb2, 0xb1, 102, 1024, 3, 8⟩, []⟩,
      ⟨⟨0xbb2, 0xb1, 102, 1024, 4, 8⟩, []⟩] (by decide)

def forkOrigin : L1BlockRef := ⟨0xb2, 102, 0xb1, 1024⟩

def forkInputs (s : FinalityRun) : StepInputs where
  prev := { nextBatch := .ok (epochBatch 0xc1 1012 []), origin := forkOrigin }
  dl := epochL1.answers
  eng := builder s.stages.queue.safeHead (s.stages.queue.safeAttributes.headD idleAttributes) 0xc2
    .valid

def forkStep (s : FinalityRun) : FinalityRun :=
  s.derive epochKeccak256 depositCodec devnetConfig (forkInputs s)

/-- The first two steps at the fork block: the attributes are made, and their block is inserted. -/
def forkRun : FinalityRun := forkStep (forkStep (.start epochQueue forkOrigin))

def forkHead : L2BlockRef := ⟨0xc2, 51, 0xc1, 1012, ⟨0xb1, 101⟩, 0⟩

def forkQueue : EngineQueue :=
  { epochQueue with
    safeHead := forkHead
    unsafeHead := forkHead
    finalityData := [{ l2Block := forkHead, l1Block := forkOrigin.id }] }

theorem forkRun_eq :
    forkRun.stages.queue = forkQueue ∧ forkRun.derived = [(forkHead, forkOrigin)] := by
  decide +kernel

theorem extends_builder {head : L2BlockRef} {attrs : PayloadAttributes} {hash : Hash}
    {status : ExecutePayloadStatus} (hlt : head.number.toNat + 1 < 2 ^ 64) :
    (builder head attrs hash status).Extends head := by
  have hnumber : (head.number + 1).toNat = head.number.toNat + 1 := by bv_omega
  constructor
  · intro fc payload hbuilt _
    obtain ⟨attrs, fcRes, id, -, -, hget⟩ := hbuilt.built
    cases hget
    exact ⟨rfl, hnumber⟩
  · intro payload hget _
    cases hget
    exact hnumber

theorem forkRun_run :
    Relation.ReflTransGen (FinalityRun.Step epochKeccak256 depositCodec devnetConfig forkL1)
      (FinalityRun.start epochQueue forkOrigin) forkRun := by
  have hstep : ∀ s : FinalityRun, s.origin = forkOrigin →
      s.stages.queue.safeHead.number.toNat + 1 < 2 ^ 64 →
      s.Step epochKeccak256 depositCodec devnetConfig forkL1 (forkStep s) := by
    intro s horigin hlt
    exact .derive _ horigin.symm (extends_builder hlt)
  exact (Relation.ReflTransGen.refl.tail (hstep _ rfl (by decide))).tail
    (hstep _ rfl (by decide +kernel))

theorem has_forkOrigin : forkL1.Has forkOrigin := ⟨_, rfl, rfl⟩

/-- A signal for the block of the same height on the other L1 branch finalizes the L2 block. -/
theorem finalize_across_fork :
    Relation.ReflTransGen (FinalityRun.Step epochKeccak256 depositCodec devnetConfig forkL1)
      (FinalityRun.start epochQueue forkOrigin) forkRun ∧
    forkL1.Names ⟨0xbb2, 102⟩ ∧
    forkRun.stages.queue.finalized.hash = 0xc1 ∧
    (forkRun.stages.queue.finalize ⟨0xbb2, 102⟩).finalized.hash = 0xc2 ∧
    ¬ forkRun.DerivedWithin forkL1 (forkRun.stages.queue.finalize ⟨0xbb2, 102⟩).finalized
      ⟨0xbb2, 102⟩ := by
  have hrun := forkRun_run
  obtain ⟨hqueue, hderived⟩ := forkRun_eq
  rw [hqueue]
  refine ⟨hrun, ⟨_, rfl, rfl⟩, by decide, by decide, ?_⟩
  intro hwithin
  have hanc : forkL1.Ancestor forkOrigin.hash 0xbb2 := by
    apply hwithin forkOrigin
    rw [hderived]
    decide
  have hsame := Ancestry.Forest.Ancestor.eq_of_height_le hanc (by decide)
  exact absurd hsame (by decide)

theorem finalize_sound_sample :
    ∃ fd ∈ forkRun.stages.queue.finalityData,
      (forkRun.stages.queue.finalize ⟨0xb2, 102⟩).finalized = fd.l2Block ∧
      fd.l2Block.hash = 0xc2 ∧ forkRun.OnSafeChain fd.l2Block ∧
      forkRun.DerivedWithin forkL1 fd.l2Block ⟨0xb2, 102⟩ := by
  have hset : (forkRun.stages.queue.finalize ⟨0xb2, 102⟩).finalized ≠
      forkRun.stages.queue.finalized := by
    rw [forkRun_eq.1]
    decide
  obtain ⟨fd, hfd, hfinal, hsafe, -, -, hwithin⟩ :=
    finalize_sound_iff has_forkOrigin forkRun_run hset
  refine ⟨fd, hfd, hfinal, ?_, hsafe, hwithin ⟨_, rfl, rfl⟩ (.inl (.refl _ _))⟩
  rw [← hfinal, forkRun_eq.1]
  decide

end Derive
