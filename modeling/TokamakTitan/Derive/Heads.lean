import TokamakTitan.Derive.EngineCalls
import TokamakTitan.Derive.Inclusion

/-! What a step of the engine queue does to its heads and to the labels of the engine. -/
namespace Derive
open Checked List

def EngineAnswers.Accepts (eng : EngineAnswers) (fc : ForkchoiceState)
    (attrs : Option PayloadAttributes) : Prop :=
  ∃ fcRes, eng.forkchoiceUpdate fc attrs = .ok fcRes ∧ fcRes.payloadStatus = .valid

/-- A forkchoice update that is answered as valid is the new state, and one that is answered
otherwise is not. An update that fails is not, unless the engine took it over and only the answer is
lost. -/
inductive Relabels (eng : EngineAnswers)
    (mayLose : ForkchoiceState → Option PayloadAttributes → Prop) :
    ForkchoiceState → List EngineCall → ForkchoiceState → Prop
  | nil {labels : ForkchoiceState} : Relabels eng mayLose labels [] labels
  | accepted {labels fc after : ForkchoiceState} {attrs : Option PayloadAttributes}
      {calls : List EngineCall} (hvalid : eng.Accepts fc attrs)
      (hrest : Relabels eng mayLose fc calls after) :
      Relabels eng mayLose labels (.forkchoiceUpdate fc attrs :: calls) after
  | refused {labels fc after : ForkchoiceState} {attrs : Option PayloadAttributes}
      {calls : List EngineCall} (hnot : ¬ eng.Accepts fc attrs)
      (hrest : Relabels eng mayLose labels calls after) :
      Relabels eng mayLose labels (.forkchoiceUpdate fc attrs :: calls) after
  | lost {labels fc after : ForkchoiceState} {attrs : Option PayloadAttributes}
      {calls : List EngineCall} {err : EngineError}
      (hfailed : eng.forkchoiceUpdate fc attrs = .error err) (hlose : mayLose fc attrs)
      (hrest : Relabels eng mayLose fc calls after) :
      Relabels eng mayLose labels (.forkchoiceUpdate fc attrs :: calls) after
  | other {labels after : ForkchoiceState} {call : EngineCall} {calls : List EngineCall}
      (hother : ∀ fc attrs, call ≠ .forkchoiceUpdate fc attrs)
      (hrest : Relabels eng mayLose labels calls after) :
      Relabels eng mayLose labels (call :: calls) after

/-- A block that the engine built on the head of `fc` for the attributes, and executed. -/
structure Built (eng : EngineAnswers) (fc : ForkchoiceState) (payload : ExecutionPayload) :
    Prop where
  built : ∃ attrs fcRes id, eng.forkchoiceUpdate fc (some attrs) = .ok fcRes ∧
    fcRes.payloadID = some id ∧ eng.getPayload id = .ok payload
  executed : eng.newPayload payload = .ok .valid

structure EngineQueue.Offers (codec : TxCodec) (cfg : Config) (eng : EngineAnswers)
    (eq : EngineQueue) (first : ExecutionPayload) (ref : L2BlockRef) : Prop where
  newer : eq.safeHead.number < first.blockNumber
  parent : first.parentHash = eq.unsafeHead.hash
  readBack : payloadToBlockRef codec first cfg.genesis = .ok ref
  executed : eng.newPayload first = .ok .valid

/-- Only what the queue waits for may change, and no block becomes safe. -/
def EngineQueue.SameHeads (eq : EngineQueue) (out : Outcome) : Prop :=
  (∃ finalizedL1 safeAttributes unsafePayloads,
    out.queue = { eq with finalizedL1, safeAttributes, unsafePayloads }) ∧ out.promoted = none

structure EngineQueue.Promotes (codec : TxCodec) (cfg : Config) (origin : L1BlockRef)
    (eq : EngineQueue) (payload : ExecutionPayload) (out : Outcome) : Prop where
  pending : eq.safeAttributes ≠ []
  finalized : out.queue.finalized = eq.finalized
  readBack : payloadToBlockRef codec payload cfg.genesis = .ok out.queue.safeHead
  finalityData : out.queue.finalityData =
    EngineQueue.recordFinality eq.finalityData out.queue.safeHead origin
  promoted : out.promoted = some payload

/-- The labels run ahead of the heads when the engine made a block the head that the node did not
take over. -/
inductive HeadsEffect (codec : TxCodec) (cfg : Config) (eng : EngineAnswers) (origin : L1BlockRef)
    (mayLose : ForkchoiceState → Option PayloadAttributes → Prop) (eq : EngineQueue)
    (labels : ForkchoiceState) (out : Outcome) (after : ForkchoiceState) : Prop
  | idle (hsame : eq.SameHeads out) (hlabels : after = labels ∨ after = eq.safeForkchoice)
  | ahead {payload : ExecutionPayload} (hsame : eq.SameHeads out)
      (hbuilt : Built eng eq.safeForkchoice payload)
      (hwhy : mayLose after none ∨
        ∃ err, payloadToBlockRef codec payload cfg.genesis = .error err)
      (hlabels : after = eq.safeForkchoice.insert payload true)
  | offered {first : ExecutionPayload} {ref : L2BlockRef} (hsame : eq.SameHeads out)
      (hoffers : eq.Offers codec cfg eng first ref) (hlabels : after = eq.unsafeForkchoice first)
  | caughtUp (hbehind : eq.unsafeHead.number < eq.safeHead.number)
      (hsame : { eq with unsafeHead := eq.safeHead }.SameHeads out) (hlabels : after = labels)
  | consolidated {payload : ExecutionPayload}
      (hahead : eq.safeHead.number < eq.unsafeHead.number)
      (hget : eng.payloadByNumber (eq.safeHead.number + 1) = .ok payload)
      (hparent : payload.parentHash = eq.safeHead.hash)
      (hpromotes : eq.Promotes codec cfg origin payload out)
      (hunsafeHead : out.queue.unsafeHead = eq.unsafeHead) (hlabels : after = labels)
  | forced {payload : ExecutionPayload} (hbuilt : Built eng eq.safeForkchoice payload)
      (hpromotes : eq.Promotes codec cfg origin payload out)
      (hunsafeHead : out.queue.unsafeHead = out.queue.safeHead)
      (hlabels : after = eq.safeForkchoice.insert payload true)
  | adopted {first : ExecutionPayload} {ref : L2BlockRef}
      (hoffers : eq.Offers codec cfg eng first ref)
      (hsame : { eq with unsafeHead := ref }.SameHeads out)
      (hlabels : after = eq.unsafeForkchoice first)

variable {attrs : PayloadAttributes} {eng : EngineAnswers}
  {mayLose : ForkchoiceState → Option PayloadAttributes → Prop}

section Relabels

variable {labels after fc : ForkchoiceState} {calls : List EngineCall}

theorem exists_relabels (calls : List EngineCall) (labels : ForkchoiceState) :
    ∃ after, Relabels eng mayLose labels calls after := by
  induction calls generalizing labels with
  | nil => exact ⟨labels, .nil⟩
  | cons call calls ih =>
    cases call with
    | forkchoiceUpdate fc attrs =>
      by_cases hvalid : eng.Accepts fc attrs
      · obtain ⟨after, hafter⟩ := ih fc
        exact ⟨after, .accepted hvalid hafter⟩
      · obtain ⟨after, hafter⟩ := ih labels
        exact ⟨after, .refused hvalid hafter⟩
    | _ =>
      obtain ⟨after, hafter⟩ := ih labels
      exact ⟨after, .other (fun _ _ h => by cases h) hafter⟩

theorem Relabels.of_nil (h : Relabels eng mayLose labels [] after) : after = labels := by
  cases h
  rfl

theorem Relabels.skip {call : EngineCall} (h : Relabels eng mayLose labels (call :: calls) after)
    (hother : ∀ fc attrs, call ≠ .forkchoiceUpdate fc attrs) :
    Relabels eng mayLose labels calls after := by
  cases h with
  | accepted => exact absurd rfl (hother _ _)
  | refused => exact absurd rfl (hother _ _)
  | lost => exact absurd rfl (hother _ _)
  | other _ hrest => exact hrest

theorem Relabels.update {attrs : Option PayloadAttributes}
    (h : Relabels eng mayLose labels (.forkchoiceUpdate fc attrs :: calls) after) :
    ∃ mid, Relabels eng mayLose mid calls after ∧
      (mid = labels ∧ ¬ eng.Accepts fc attrs ∨
        mid = fc ∧ (eng.Accepts fc attrs ∨ mayLose fc attrs)) := by
  cases h with
  | accepted hvalid hrest => exact ⟨fc, hrest, .inr ⟨rfl, .inl hvalid⟩⟩
  | refused hnot hrest => exact ⟨labels, hrest, .inl ⟨rfl, hnot⟩⟩
  | lost _ hlose hrest => exact ⟨fc, hrest, .inr ⟨rfl, .inr hlose⟩⟩
  | other hother => exact absurd rfl (hother _ _)

theorem makeCanonical_eq_ok {u : Unit} (h : makeCanonical eng fc = .ok u) :
    eng.Accepts fc none := by
  unfold makeCanonical at h
  split at h
  next => cases h
  next => split at h <;> cases h
  next fcRes hreply =>
    split at h
    next hvalid => exact ⟨fcRes, hreply, hvalid⟩
    next => cases h

theorem makeCanonical_of_accepts (h : eng.Accepts fc none) : makeCanonical eng fc = .ok () := by
  obtain ⟨fcRes, hreply, hvalid⟩ := h
  simp only [makeCanonical, hreply, hvalid, if_true]

theorem insertCalls_relabels
    (h : Relabels eng mayLose labels (insertCalls eng fc attrs true) after) :
    (after = labels ∨ after = fc) ∧ (∀ payload, insertHeadBlock eng fc attrs true ≠ .ok payload) ∨
    ∃ payload, Built eng fc payload ∧ after = fc.insert payload true ∧
      (insertHeadBlock eng fc attrs true = .ok payload ∨
        mayLose (fc.insert payload true) none ∧
          ∀ other, insertHeadBlock eng fc attrs true ≠ .ok other) := by
  unfold insertCalls at h
  obtain ⟨mid, hrest, hmid⟩ := h.update
  have hfirst : mid = labels ∨ mid = fc := hmid.imp And.left And.left
  unfold insertHeadBlock
  cases hid : startPayload eng fc attrs with
  | error =>
    rw [hid] at hrest
    exact .inl ⟨hrest.of_nil ▸ hfirst, fun payload h => by cases h⟩
  | ok id =>
    simp only [hid, ok_bind] at hrest ⊢
    replace hrest := hrest.skip fun _ _ h => by cases h
    cases hget : retrievePayload eng id with
    | error =>
      rw [hget] at hrest
      exact .inl ⟨hrest.of_nil ▸ hfirst, fun payload h => by cases h⟩
    | ok payload =>
      simp only [hget, ok_bind] at hrest ⊢
      cases hsane : sanityCheckPayload payload with
      | error =>
        rw [hsane] at hrest
        exact .inl ⟨hrest.of_nil ▸ hfirst, fun payload h => by cases h⟩
      | ok =>
        simp only [hsane, ok_bind] at hrest ⊢
        replace hrest := hrest.skip fun _ _ h => by cases h
        cases hexec : executePayload eng payload with
        | error =>
          rw [hexec] at hrest
          exact .inl ⟨hrest.of_nil ▸ hfirst, fun payload h => by cases h⟩
        | ok =>
          simp only [hexec, ok_bind] at hrest ⊢
          obtain ⟨last, hlast, hcase⟩ := hrest.update
          have hafter : after = last := hlast.of_nil
          obtain ⟨fcRes, hstart, -, hpayloadID⟩ := startPayload_eq_ok hid
          have hbuilt : Built eng fc payload :=
            ⟨⟨attrs, fcRes, id, hstart, hpayloadID, retrievePayload_eq_ok hget⟩,
              executePayload_eq_ok hexec⟩
          have hdone : ∀ other, (makeCanonical eng (fc.insert payload true) >>=
              fun _ => (pure payload : Except BlockInsertionErr ExecutionPayload)) = .ok other →
              eng.Accepts (fc.insert payload true) none := by
            intro other hok
            obtain ⟨u, hu, -⟩ := bind_eq_ok.mp hok
            exact makeCanonical_eq_ok hu
          rcases hcase with ⟨hkept, hnot⟩ | ⟨hnew, hwhy⟩
          · exact .inl ⟨hafter ▸ hkept ▸ hfirst, fun other hok => hnot (hdone other hok)⟩
          · refine .inr ⟨payload, hbuilt, hafter.trans hnew, ?_⟩
            by_cases hvalid : eng.Accepts (fc.insert payload true) none
            · refine .inl ?_
              show (makeCanonical eng (fc.insert payload true) >>= _) = _
              rw [makeCanonical_of_accepts hvalid]
              rfl
            · exact .inr ⟨hwhy.resolve_left hvalid, fun other hok => hvalid (hdone other hok)⟩

end Relabels

variable {codec : TxCodec} {cfg : Config} {origin : L1BlockRef} {labels after : ForkchoiceState}

theorem payloadToBlockRef_fields {payload : ExecutionPayload} {ref : L2BlockRef}
    {genesis : Genesis} (h : payloadToBlockRef codec payload genesis = .ok ref) :
    ref.hash = payload.blockHash ∧ ref.number = payload.blockNumber ∧
      ref.parentHash = payload.parentHash := by
  simp only [payloadToBlockRef, bind_eq_ok, pure_eq_ok] at h
  obtain ⟨-, -, rfl⟩ := h
  exact ⟨rfl, rfl, rfl⟩

variable {eq : EngineQueue} {rest : List PayloadAttributes}

namespace EngineQueue

theorem SameHeads.stop (eq : EngineQueue) (result : Except Error Unit) :
    eq.SameHeads (eq.stop result) := ⟨⟨_, _, _, rfl⟩, rfl⟩

theorem forceNextSafeAttributes_failed {err : BlockInsertionErr}
    (hattrs : eq.safeAttributes = attrs :: rest)
    (hinsert : insertHeadBlock eng eq.safeForkchoice attrs true = .error err) :
    eq.SameHeads (eq.forceNextSafeAttributes codec cfg eng origin) := by
  unfold forceNextSafeAttributes
  rw [hattrs]
  dsimp only
  rw [← safeForkchoice, hinsert]
  cases err with
  | payload =>
    dsimp only
    split
    · exact ⟨⟨_, _, _, rfl⟩, rfl⟩
    · exact .stop eq _
  | _ => exact .stop eq _

theorem forceNextSafeAttributes_inserted {payload : ExecutionPayload}
    (hattrs : eq.safeAttributes = attrs :: rest)
    (hinsert : insertHeadBlock eng eq.safeForkchoice attrs true = .ok payload)
    (hbuilt : Built eng eq.safeForkchoice payload) :
    HeadsEffect codec cfg eng origin mayLose eq labels
      (eq.forceNextSafeAttributes codec cfg eng origin)
      (eq.safeForkchoice.insert payload true) := by
  unfold forceNextSafeAttributes
  rw [hattrs]
  dsimp only
  rw [← safeForkchoice, hinsert]
  dsimp only
  cases href : payloadToBlockRef codec payload cfg.genesis with
  | error err => exact .ahead (.stop eq _) hbuilt (.inr ⟨err, href⟩) rfl
  | ok =>
    refine .forced hbuilt ⟨?_, rfl, href, rfl, rfl⟩ rfl rfl
    rw [hattrs]
    exact cons_ne_nil _ _

theorem forceNextSafeAttributes_heads (h : Relabels eng mayLose labels (eq.forceCalls eng) after) :
    HeadsEffect codec cfg eng origin mayLose eq labels
      (eq.forceNextSafeAttributes codec cfg eng origin) after := by
  unfold forceCalls at h
  cases hattrs : eq.safeAttributes with
  | nil =>
    rw [hattrs] at h
    unfold forceNextSafeAttributes
    rw [hattrs]
    exact .idle (.stop eq _) (.inl h.of_nil)
  | cons attrs =>
    rw [hattrs] at h
    rcases insertCalls_relabels h with ⟨hlabels, hnone⟩ | ⟨payload, hbuilt, hlabels, hwhy⟩
    · cases hinsert : insertHeadBlock eng eq.safeForkchoice attrs true with
      | ok payload => exact absurd hinsert (hnone payload)
      | error => exact .idle (forceNextSafeAttributes_failed hattrs hinsert) hlabels
    · subst hlabels
      rcases hwhy with hinsert | ⟨hlose, hnone⟩
      · exact forceNextSafeAttributes_inserted hattrs hinsert hbuilt
      · cases hinsert : insertHeadBlock eng eq.safeForkchoice attrs true with
        | ok payload => exact absurd hinsert (hnone payload)
        | error =>
          exact .ahead (forceNextSafeAttributes_failed hattrs hinsert) hbuilt (.inl hlose) rfl

theorem consolidateNextSafeAttributes_heads (hahead : eq.safeHead.number < eq.unsafeHead.number)
    (h : Relabels eng mayLose labels (eq.consolidateCalls eng) after) :
    HeadsEffect codec cfg eng origin mayLose eq labels
      (eq.consolidateNextSafeAttributes codec cfg eng origin) after := by
  unfold consolidateCalls at h
  unfold consolidateNextSafeAttributes
  replace h := h.skip fun _ _ h => by cases h
  cases hget : eng.payloadByNumber (eq.safeHead.number + 1) with
  | error err =>
    rw [hget] at h
    cases err <;> exact .idle (.stop eq _) (.inl h.of_nil)
  | ok payload =>
    rw [hget] at h
    dsimp only at h ⊢
    cases hattrs : eq.safeAttributes with
    | nil =>
      rw [hattrs] at h
      exact .idle (.stop eq _) (.inl h.of_nil)
    | cons attrs =>
      rw [hattrs] at h
      dsimp only at h ⊢
      cases hmatch : attributesMatchBlock attrs eq.safeHead.hash payload with
      | error =>
        rw [hmatch] at h
        exact forceNextSafeAttributes_heads h
      | ok =>
        rw [hmatch] at h
        dsimp only
        cases href : payloadToBlockRef codec payload cfg.genesis with
        | error => exact .idle (.stop eq _) (.inl h.of_nil)
        | ok =>
          refine .consolidated hahead hget (attributesMatchBlock_eq_ok hmatch).1.symm
            ⟨?_, rfl, href, rfl, rfl⟩ rfl h.of_nil
          rw [hattrs]
          exact cons_ne_nil _ _

theorem tryNextSafeAttributes_heads (h : Relabels eng mayLose labels (eq.safeCalls eng) after) :
    HeadsEffect codec cfg eng origin mayLose eq labels
      (eq.tryNextSafeAttributes codec cfg eng origin) after := by
  unfold safeCalls at h
  unfold tryNextSafeAttributes
  split
  next hlt =>
    rw [if_pos hlt] at h
    exact consolidateNextSafeAttributes_heads hlt h
  next hge =>
    rw [if_neg hge] at h
    split
    next heq =>
      rw [if_pos heq] at h
      exact forceNextSafeAttributes_heads h
    next hne =>
      rw [if_neg hne] at h
      exact .caughtUp (by bv_omega) (.stop _ _) h.of_nil

theorem adoptUnsafePayload_heads {first : ExecutionPayload} {ref : L2BlockRef}
    (hoffers : eq.Offers codec cfg eng first ref)
    (h : Relabels eng mayLose labels [.forkchoiceUpdate (eq.unsafeForkchoice first) none] after) :
    HeadsEffect codec cfg eng origin mayLose eq labels (eq.adoptUnsafePayload eng first ref)
      after := by
  obtain ⟨mid, hrest, hmid⟩ := h.update
  obtain rfl := hrest.of_nil
  unfold adoptUnsafePayload
  dsimp only
  rw [← unsafeForkchoice]
  have hkept : ∀ {out : Outcome}, eq.SameHeads out →
      HeadsEffect codec cfg eng origin mayLose eq labels out after := by
    intro out hsame
    rcases hmid with ⟨hold, -⟩ | ⟨hnew, -⟩
    · exact .idle hsame (.inl hold)
    · exact .offered hsame hoffers hnew
  split
  next => split <;> exact hkept (.stop eq _)
  next => exact hkept (.stop eq _)
  next fcRes hreply =>
    split
    next => exact hkept ⟨⟨_, _, _, rfl⟩, rfl⟩
    next hvalid =>
      have haccepts : eng.Accepts (eq.unsafeForkchoice first) none :=
        ⟨fcRes, hreply, not_not.mp hvalid⟩
      rcases hmid with ⟨-, hnot⟩ | ⟨hnew, -⟩
      · exact absurd haccepts hnot
      · exact .adopted hoffers ⟨⟨_, _, _, rfl⟩, rfl⟩ hnew

theorem tryNextUnsafePayload_heads
    (h : Relabels eng mayLose labels (eq.unsafeCalls codec cfg eng) after) :
    HeadsEffect codec cfg eng origin mayLose eq labels
      (eq.tryNextUnsafePayload codec cfg eng) after := by
  unfold unsafeCalls at h
  unfold tryNextUnsafePayload
  cases hpayloads : eq.unsafePayloads with
  | nil =>
    rw [hpayloads] at h
    exact .idle (.stop eq _) (.inl h.of_nil)
  | cons first =>
    rw [hpayloads] at h
    dsimp only at h ⊢
    split
    next hold =>
      rw [if_pos hold] at h
      exact .idle ⟨⟨_, _, _, rfl⟩, rfl⟩ (.inl h.of_nil)
    next hnew =>
      rw [if_neg hnew] at h
      split
      next hparent =>
        rw [if_pos hparent] at h
        split
        · exact .idle ⟨⟨_, _, _, rfl⟩, rfl⟩ (.inl h.of_nil)
        · exact .idle (.stop eq _) (.inl h.of_nil)
      next hparent =>
        rw [if_neg hparent] at h
        cases href : payloadToBlockRef codec first cfg.genesis with
        | error =>
          rw [href] at h
          exact .idle ⟨⟨_, _, _, rfl⟩, rfl⟩ (.inl h.of_nil)
        | ok =>
          rw [href] at h
          replace h := h.skip fun _ _ h => by cases h
          dsimp only
          split
          next err hexec =>
            rw [hexec] at h
            exact .idle (.stop eq _) (.inl h.of_nil)
          next hexec =>
            rw [hexec] at h
            exact adoptUnsafePayload_heads
              ⟨BitVec.not_le.mp hnew, not_not.mp hparent, href, hexec⟩ h
          next status hne hexec =>
            have hlabels : after = labels := by
              rw [hexec] at h
              cases status with
              | valid => exact absurd rfl hne
              | _ => exact h.of_nil
            exact .idle ⟨⟨_, _, _, rfl⟩, rfl⟩ (.inl hlabels)

theorem step_heads {next : Except Error PayloadAttributes}
    (h : Relabels eng mayLose labels (eq.calls codec cfg eng next) after) :
    HeadsEffect codec cfg eng origin mayLose eq labels (eq.step codec cfg eng origin next)
      after := by
  unfold calls at h
  unfold step
  split
  next hattrs =>
    rw [if_pos hattrs] at h
    exact tryNextSafeAttributes_heads h
  next hempty =>
    rw [if_neg hempty] at h
    cases next with
    | ok => exact .idle ⟨⟨_, _, _, rfl⟩, rfl⟩ (.inl h.of_nil)
    | error err =>
      cases err with
      | eof =>
        dsimp only at h ⊢
        split
        next hpayloads =>
          rw [if_pos hpayloads] at h
          exact tryNextUnsafePayload_heads h
        next hnone =>
          rw [if_neg hnone] at h
          exact .idle (.stop eq _) (.inl h.of_nil)
      | _ => exact .idle (.stop eq _) (.inl h.of_nil)

theorem finalize_cases (eq : EngineQueue) (l1Origin : BlockID) :
    eq.finalize l1Origin = { eq with finalizedL1 := l1Origin } ∨
    ∃ fd ∈ eq.finalityData, fd.l1Block.number ≤ l1Origin.number ∧
      eq.finalized.number < fd.l2Block.number ∧
      eq.finalize l1Origin = { eq with finalizedL1 := l1Origin, finalized := fd.l2Block } := by
  have hfold : ∀ (data : List FinalityData) (best : L2BlockRef), data.foldl (fun best fd =>
        if fd.l2Block.number > best.number ∧ fd.l1Block.number ≤ l1Origin.number then fd.l2Block
        else best) best = best ∨
      ∃ fd ∈ data, fd.l1Block.number ≤ l1Origin.number ∧ best.number < fd.l2Block.number ∧
        data.foldl (fun best fd =>
          if fd.l2Block.number > best.number ∧ fd.l1Block.number ≤ l1Origin.number then fd.l2Block
          else best) best = fd.l2Block := by
    intro data
    induction data with
    | nil =>
      intro best
      exact .inl rfl
    | cons fd data ih =>
      intro best
      rw [foldl_cons]
      split
      next hbetter =>
        rcases ih fd.l2Block with hsame | ⟨later, hmem, hle, hlt, heq⟩
        · exact .inr ⟨fd, mem_cons_self, hbetter.2, hbetter.1, hsame⟩
        · exact .inr ⟨later, mem_cons_of_mem _ hmem, hle, BitVec.lt_trans hbetter.1 hlt, heq⟩
      next =>
        rcases ih best with hsame | ⟨later, hmem, hrest⟩
        · exact .inl hsame
        · exact .inr ⟨later, mem_cons_of_mem _ hmem, hrest⟩
  unfold finalize tryFinalizeL2
  split
  next => exact .inl rfl
  next =>
    rcases hfold eq.finalityData eq.finalized with hsame | ⟨fd, hmem, hle, hlt, heq⟩
    · exact .inl (by rw [hsame])
    · exact .inr ⟨fd, hmem, hle, hlt, by rw [heq]⟩

theorem mem_recordFinality {data : List FinalityData} {safeHead : L2BlockRef}
    {origin : L1BlockRef} {fd : FinalityData} (h : fd ∈ recordFinality data safeHead origin) :
    fd ∈ data ∨ fd = { l2Block := safeHead, l1Block := origin.id } ∨
    ∃ last ∈ data, origin.number ≤ last.l1Block.number ∧
      fd = { last with l2Block := safeHead } := by
  unfold recordFinality at h
  have hpruned : ∀ fd ∈ (if finalityLookback ≤ data.length
      then (data.take finalityLookback).drop 1 else data), fd ∈ data := by
    intro fd hfd
    split at hfd
    · exact mem_of_mem_take (mem_of_mem_drop hfd)
    · exact hfd
  dsimp only at h
  generalize (if finalityLookback ≤ data.length
    then (data.take finalityLookback).drop 1 else data) = pruned at h hpruned
  split at h
  next =>
    rcases mem_append.mp h with hold | hnew
    · exact .inl (hpruned fd hold)
    · exact .inr (.inl (mem_singleton.mp hnew))
  next last hlast =>
    split at h
    next =>
      rcases mem_append.mp h with hold | hnew
      · exact .inl (hpruned fd hold)
      · exact .inr (.inl (mem_singleton.mp hnew))
    next hge =>
      rcases mem_append.mp h with hold | hnew
      · exact .inl (hpruned fd (dropLast_subset _ hold))
      · exact .inr (.inr ⟨last, hpruned last (mem_of_getLast? hlast),
          BitVec.not_lt.mp hge, mem_singleton.mp hnew⟩)

end EngineQueue

/-- A step keeps the finalized block, and the safe head unless it promotes a block. -/
theorem HeadsEffect.safe_cases {out : Outcome}
    (h : HeadsEffect codec cfg eng origin mayLose eq labels out after) :
    out.queue.finalized = eq.finalized ∧
    ((out.queue.safeHead = eq.safeHead ∧ out.queue.finalityData = eq.finalityData ∧
        out.promoted = none) ∨
      ∃ payload, eq.Promotes codec cfg origin payload out ∧
        (eng.payloadByNumber (eq.safeHead.number + 1) = .ok payload ∧
            payload.parentHash = eq.safeHead.hash ∨
          Built eng eq.safeForkchoice payload)) := by
  have hkept : ∀ {ref}, { eq with unsafeHead := ref }.SameHeads out →
      out.queue.finalized = eq.finalized ∧ out.queue.safeHead = eq.safeHead ∧
        out.queue.finalityData = eq.finalityData ∧ out.promoted = none := by
    rintro ref ⟨⟨_, _, _, hqueue⟩, hnone⟩
    rw [hqueue]
    exact ⟨rfl, rfl, rfl, hnone⟩
  cases h with
  | idle hsame => exact (hkept hsame).imp_right .inl
  | ahead hsame => exact (hkept hsame).imp_right .inl
  | offered hsame => exact (hkept hsame).imp_right .inl
  | caughtUp _ hsame => exact (hkept hsame).imp_right .inl
  | adopted _ hsame => exact (hkept hsame).imp_right .inl
  | consolidated _ hget hparent hpromotes =>
    exact ⟨hpromotes.finalized, .inr ⟨_, hpromotes, .inl ⟨hget, hparent⟩⟩⟩
  | forced hbuilt hpromotes => exact ⟨hpromotes.finalized, .inr ⟨_, hpromotes, .inr hbuilt⟩⟩

end Derive
