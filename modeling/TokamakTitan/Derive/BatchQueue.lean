import TokamakTitan.Derive.EngineQueue

/-! The batch queue orders the batches of the channel reader, and makes empty batches when the
sequence window has passed. -/
namespace Derive
open List

structure BatchQueue where
  origin : L1BlockRef
  l1Blocks : List L1BlockRef
  batches : Uint64 → List BatchWithL1InclusionBlock

structure ReaderAnswers where
  origin : L1BlockRef
  nextBatch : Except Error BatchData

inductive Selection where
  | future (batch : BatchWithL1InclusionBlock)
  | undecided (remaining : List BatchWithL1InclusionBlock)
  | accepted (next : BatchWithL1InclusionBlock) (remaining : List BatchWithL1InclusionBlock)
  | exhausted (remaining : List BatchWithL1InclusionBlock)

def Selection.remaining : Selection → List BatchWithL1InclusionBlock
  | .future _ => []
  | .undecided remaining => remaining
  | .accepted _ remaining => remaining
  | .exhausted remaining => remaining

namespace BatchQueue

def setBatches (bq : BatchQueue) (timestamp : Uint64) (batches : List BatchWithL1InclusionBlock) :
    BatchQueue :=
  { bq with batches := fun t => if t = timestamp then batches else bq.batches t }

def reset (base : L1BlockRef) : BatchQueue where
  origin := base
  l1Blocks := [base]
  batches := fun _ => []

section Config

variable (cfg : Config) (bq : BatchQueue)

def addBatch (batch : BatchData) (l2SafeHead : L2BlockRef) : Except Error BatchQueue :=
  if bq.l1Blocks = [] then .error .panic
  else
    let data : BatchWithL1InclusionBlock := { l1InclusionBlock := bq.origin, batch }
    match checkBatch cfg bq.l1Blocks l2SafeHead data.l1InclusionBlock batch with
    | .drop => .ok bq
    | _ => .ok (bq.setBatches batch.timestamp (bq.batches batch.timestamp ++ [data]))

/-- The loop over the candidates. The batches behind an undecided one are forgotten. -/
def selectBatch (l1Blocks : List L1BlockRef) (l2SafeHead : L2BlockRef)
    (remaining : List BatchWithL1InclusionBlock) : List BatchWithL1InclusionBlock → Selection
  | [] => .exhausted remaining
  | candidate :: candidates =>
    match checkBatch cfg l1Blocks l2SafeHead candidate.l1InclusionBlock candidate.batch with
    | .future => .future candidate
    | .drop => selectBatch l1Blocks l2SafeHead remaining candidates
    | .accept => .accepted candidate (remaining ++ candidates)
    | .undecided => .undecided (remaining ++ [candidate])

def emptyBatch (l2SafeHead : L2BlockRef) (epoch : L1BlockRef) (timestamp : Uint64) : BatchData where
  parentHash := l2SafeHead.hash
  epochNum := epoch.number
  epochHash := epoch.hash
  timestamp
  transactions := []

def forceNextEpoch (epoch : L1BlockRef) (outOfData : Bool) : Bool :=
  let expiryEpoch := epoch.number + cfg.seqWindowSize
  (expiryEpoch = bq.origin.number ∧ outOfData) ∨ expiryEpoch < bq.origin.number

/-- An empty batch in the epoch or the next one, once no other batch can come. -/
def deriveEmptyBatch (epoch : L1BlockRef) (rest : List L1BlockRef) (outOfData : Bool)
    (l2SafeHead : L2BlockRef) : BatchQueue × Except Error BatchData :=
  let nextTimestamp := l2SafeHead.time + cfg.blockTime
  if forceNextEpoch cfg bq epoch outOfData then
    match rest with
    | [] => (bq, .error .eof)
    | nextEpoch :: _ =>
      if nextTimestamp < nextEpoch.time then
        (bq, .ok (emptyBatch l2SafeHead epoch nextTimestamp))
      else ({ bq with l1Blocks := rest }, .ok (emptyBatch l2SafeHead nextEpoch nextTimestamp))
  else (bq, .error .eof)

def futureBatchErr (timestamp nextTimestamp : Uint64) : Error :=
  let found := timestamp.toNat
  let expected := nextTimestamp.toNat
  .critical
    s!"found batch with timestamp {found} marked as future batch, but expected timestamp {expected}"

def deriveNextBatch (outOfData : Bool) (l2SafeHead : L2BlockRef) :
    BatchQueue × Except Error BatchData :=
  match bq.l1Blocks with
  | [] => (bq, .error (.critical "cannot derive next batch, no origin was prepared"))
  | epoch :: rest =>
    if l2SafeHead.l1Origin ≠ epoch.id then
      (bq, .error (.reset "buffered L1 chain epoch in batch queue does not match safe head"))
    else
      let nextTimestamp := l2SafeHead.time + cfg.blockTime
      match selectBatch cfg (epoch :: rest) l2SafeHead [] (bq.batches nextTimestamp) with
      | .future found => (bq, .error (futureBatchErr found.batch.timestamp nextTimestamp))
      | .undecided remaining => (bq.setBatches nextTimestamp remaining, .error .eof)
      | .accepted next remaining =>
        let bq := bq.setBatches nextTimestamp remaining
        (if next.batch.epochNum = epoch.number + 1 then { bq with l1Blocks := rest } else bq,
          .ok next.batch)
      | .exhausted remaining =>
        (bq.setBatches nextTimestamp remaining).deriveEmptyBatch cfg epoch rest outOfData l2SafeHead

/-- The origin follows the channel reader. A queue that was behind the safe head forgets its
blocks. -/
def advance (origin : L1BlockRef) (originBehind : Bool) : BatchQueue :=
  if bq.origin = origin then bq
  else { bq with origin, l1Blocks := if originBehind then [] else bq.l1Blocks ++ [origin] }

def nextBatch (prev : ReaderAnswers) (bq : BatchQueue) (safeL2Head : L2BlockRef) :
    BatchQueue × Except Error BatchData :=
  let originBehind : Bool := bq.origin.number < safeL2Head.l1Origin.number
  let bq := bq.advance prev.origin originBehind
  match prev.nextBatch with
  | .error .eof =>
    if originBehind then (bq, .error .eof) else bq.deriveNextBatch cfg true safeL2Head
  | .error err => (bq, .error err)
  | .ok batch =>
    if originBehind then (bq, .error .notEnoughData)
    else match bq.addBatch cfg batch safeL2Head with
      | .error err => (bq, .error err)
      | .ok bq =>
        match bq.deriveNextBatch cfg false safeL2Head with
        | (bq, .error .eof) => (bq, .error .notEnoughData)
        | result => result

end Config

variable {cfg : Config} {bq : BatchQueue} {head : L2BlockRef}

inductive DeriveEffect (cfg : Config) (bq : BatchQueue) (head : L2BlockRef) :
    List L1BlockRef → Except Error BatchData → Prop
  | noOrigin (hblocks : bq.l1Blocks = []) :
      DeriveEffect cfg bq head []
        (.error (.critical "cannot derive next batch, no origin was prepared"))
  | mismatch {epoch : L1BlockRef} {rest : List L1BlockRef} (hblocks : bq.l1Blocks = epoch :: rest)
      (hne : head.l1Origin ≠ epoch.id) :
      DeriveEffect cfg bq head (epoch :: rest)
        (.error (.reset "buffered L1 chain epoch in batch queue does not match safe head"))
  | future {epoch : L1BlockRef} {rest : List L1BlockRef} (hblocks : bq.l1Blocks = epoch :: rest)
      (hepoch : head.l1Origin = epoch.id) {found : BatchWithL1InclusionBlock}
      (hstored : found ∈ bq.batches (head.time + cfg.blockTime))
      (hfuture : checkBatch cfg (epoch :: rest) head found.l1InclusionBlock found.batch = .future) :
      DeriveEffect cfg bq head (epoch :: rest)
        (.error (futureBatchErr found.batch.timestamp (head.time + cfg.blockTime)))
  | waiting {epoch : L1BlockRef} {rest : List L1BlockRef} (hblocks : bq.l1Blocks = epoch :: rest)
      (hepoch : head.l1Origin = epoch.id) : DeriveEffect cfg bq head (epoch :: rest) (.error .eof)
  | submitted {epoch : L1BlockRef} {rest : List L1BlockRef} {next : BatchWithL1InclusionBlock}
      (hblocks : bq.l1Blocks = epoch :: rest) (hepoch : head.l1Origin = epoch.id)
      (hstored : next ∈ bq.batches (head.time + cfg.blockTime))
      (haccept : checkBatch cfg (epoch :: rest) head next.l1InclusionBlock next.batch = .accept) :
      DeriveEffect cfg bq head
        (if next.batch.epochNum = epoch.number + 1 then rest else epoch :: rest) (.ok next.batch)
  | stays {epoch nextEpoch : L1BlockRef} {rest : List L1BlockRef}
      (hblocks : bq.l1Blocks = epoch :: nextEpoch :: rest) (hepoch : head.l1Origin = epoch.id) :
      DeriveEffect cfg bq head (epoch :: nextEpoch :: rest)
        (.ok (emptyBatch head epoch (head.time + cfg.blockTime)))
  | opens {epoch nextEpoch : L1BlockRef} {rest : List L1BlockRef}
      (hblocks : bq.l1Blocks = epoch :: nextEpoch :: rest) (hepoch : head.l1Origin = epoch.id)
      (htime : nextEpoch.time ≤ head.time + cfg.blockTime) :
      DeriveEffect cfg bq head (nextEpoch :: rest)
        (.ok (emptyBatch head nextEpoch (head.time + cfg.blockTime)))

variable {candidates : List BatchWithL1InclusionBlock} {l1Blocks : List L1BlockRef}

theorem selectBatch_cases (kept : List BatchWithL1InclusionBlock) :
    (∀ found, selectBatch cfg l1Blocks head kept candidates = .future found →
      found ∈ candidates ∧
        checkBatch cfg l1Blocks head found.l1InclusionBlock found.batch = .future) ∧
    (∀ next remaining, selectBatch cfg l1Blocks head kept candidates = .accepted next remaining →
      next ∈ candidates ∧
        checkBatch cfg l1Blocks head next.l1InclusionBlock next.batch = .accept) ∧
    ∀ x ∈ (selectBatch cfg l1Blocks head kept candidates).remaining, x ∈ kept ∨ x ∈ candidates := by
  induction candidates generalizing kept with
  | nil => simp [selectBatch, Selection.remaining]
  | cons candidate candidates ih =>
    rw [selectBatch]
    cases hcheck : checkBatch cfg l1Blocks head candidate.l1InclusionBlock candidate.batch with
    | drop =>
      obtain ⟨hfuture, haccepted, hremaining⟩ := ih kept
      refine ⟨fun found h => ?_, fun next remaining h => ?_, fun x hx => ?_⟩
      · exact (hfuture found h).imp_left (mem_cons_of_mem _)
      · exact (haccepted next remaining h).imp_left (mem_cons_of_mem _)
      · exact (hremaining x hx).imp_right (mem_cons_of_mem _)
    | future => simp [Selection.remaining, hcheck]
    | accept => simp +contextual [Selection.remaining, hcheck, or_imp]
    | undecided => simp +contextual [Selection.remaining, or_imp]

variable {queue : BatchQueue} {outOfData : Bool} {rest : List L1BlockRef}

theorem deriveEmptyBatch_effect {epoch : L1BlockRef} (hsame : queue.l1Blocks = bq.l1Blocks)
    (hblocks : bq.l1Blocks = epoch :: rest) (hepoch : head.l1Origin = epoch.id) :
    DeriveEffect cfg bq head (queue.deriveEmptyBatch cfg epoch rest outOfData head).1.l1Blocks
      (queue.deriveEmptyBatch cfg epoch rest outOfData head).2 := by
  have hqueue : queue.l1Blocks = epoch :: rest := hsame.trans hblocks
  unfold deriveEmptyBatch
  dsimp only
  split
  next =>
    split
    next =>
      rw [hqueue]
      exact .waiting hblocks hepoch
    next nextEpoch more =>
      split
      next =>
        rw [hqueue]
        exact .stays hblocks hepoch
      next htime => exact .opens hblocks hepoch (BitVec.not_lt.mp htime)
  next =>
    rw [hqueue]
    exact .waiting hblocks hepoch

theorem deriveNextBatch_effect (bq : BatchQueue) (outOfData : Bool) (head : L2BlockRef) :
    DeriveEffect cfg bq head (bq.deriveNextBatch cfg outOfData head).1.l1Blocks
      (bq.deriveNextBatch cfg outOfData head).2 := by
  unfold deriveNextBatch
  split
  next hblocks =>
    rw [hblocks]
    exact .noOrigin hblocks
  next epoch rest hblocks =>
    split
    next hne =>
      rw [hblocks]
      exact .mismatch hblocks hne
    next heq =>
      have hepoch := not_not.mp heq
      dsimp only
      split
      next found hselect =>
        obtain ⟨hstored, hfuture⟩ := (selectBatch_cases []).1 found hselect
        rw [hblocks]
        exact .future hblocks hepoch hstored hfuture
      next remaining hselect =>
        show DeriveEffect cfg bq head bq.l1Blocks _
        rw [hblocks]
        exact .waiting hblocks hepoch
      next next remaining hselect =>
        obtain ⟨hstored, haccept⟩ := (selectBatch_cases []).2.1 next remaining hselect
        have heffect := DeriveEffect.submitted hblocks hepoch hstored haccept
        split
        next hnext =>
          rw [if_pos hnext] at heffect
          exact heffect
        next hnext =>
          rw [if_neg hnext, ← hblocks] at heffect
          exact heffect
      next remaining hselect => exact deriveEmptyBatch_effect rfl hblocks hepoch

/-- All stored batches have the property `p`, each at its timestamp. -/
def Stores (p : Uint64 → BatchData → Prop) (bq : BatchQueue) : Prop :=
  ∀ t, ∀ x ∈ bq.batches t, p t x.batch

variable {p : Uint64 → BatchData → Prop}

theorem Stores.setBatches {timestamp : Uint64} {batches : List BatchWithL1InclusionBlock}
    (h : bq.Stores p) (hnew : ∀ x ∈ batches, p timestamp x.batch) :
    (bq.setBatches timestamp batches).Stores p := by
  intro t x hx
  unfold BatchQueue.setBatches at hx
  dsimp only at hx
  split at hx
  next heq => exact heq ▸ hnew x hx
  next => exact h t x hx

theorem Stores.congr (h : bq.Stores p) (heq : queue.batches = bq.batches) : queue.Stores p := by
  unfold Stores
  rwa [heq]

theorem deriveEmptyBatch_frame (bq : BatchQueue) (epoch : L1BlockRef) (rest : List L1BlockRef) :
    (bq.deriveEmptyBatch cfg epoch rest outOfData head).1.batches = bq.batches ∧
      (bq.deriveEmptyBatch cfg epoch rest outOfData head).1.origin = bq.origin := by
  unfold deriveEmptyBatch
  dsimp only
  split
  next =>
    split
    next => exact ⟨rfl, rfl⟩
    next => split <;> exact ⟨rfl, rfl⟩
  next => exact ⟨rfl, rfl⟩

theorem deriveNextBatch_frame (cfg : Config) (bq : BatchQueue) (outOfData : Bool)
    (head : L2BlockRef) :
    (bq.deriveNextBatch cfg outOfData head).1.origin = bq.origin ∧
      ∀ p, bq.Stores p → (bq.deriveNextBatch cfg outOfData head).1.Stores p := by
  unfold deriveNextBatch
  split
  next => exact ⟨rfl, fun _ h => h⟩
  next epoch rest hblocks =>
    split
    next => exact ⟨rfl, fun _ h => h⟩
    next =>
      dsimp only
      have hleft : ∀ p, bq.Stores p → ∀ x ∈ (selectBatch cfg (epoch :: rest) head []
          (bq.batches (head.time + cfg.blockTime))).remaining,
          p (head.time + cfg.blockTime) x.batch := by
        intro p h x hx
        rcases (selectBatch_cases []).2.2 x hx with hnil | hcandidate
        · cases hnil
        · exact h _ x hcandidate
      split
      next => exact ⟨rfl, fun _ h => h⟩
      next remaining hselect =>
        rw [hselect] at hleft
        exact ⟨rfl, fun p h => h.setBatches (hleft p h)⟩
      next next remaining hselect =>
        rw [hselect] at hleft
        split <;> exact ⟨rfl, fun p h => h.setBatches (hleft p h)⟩
      next remaining hselect =>
        rw [hselect] at hleft
        obtain ⟨hbatches, horigin⟩ := deriveEmptyBatch_frame
          (bq.setBatches (head.time + cfg.blockTime) remaining) epoch rest
        exact ⟨horigin, fun p h => (h.setBatches (hleft p h)).congr hbatches⟩

theorem addBatch_eq_ok {batch : BatchData} (h : bq.addBatch cfg batch head = .ok queue) :
    queue.l1Blocks = bq.l1Blocks ∧ queue.origin = bq.origin ∧
      ∀ p : Uint64 → BatchData → Prop, p batch.timestamp batch → bq.Stores p → queue.Stores p := by
  unfold addBatch at h
  split at h
  next => cases h
  next =>
    dsimp only at h
    split at h
    next =>
      cases h
      exact ⟨rfl, rfl, fun _ _ hstores => hstores⟩
    next =>
      cases h
      refine ⟨rfl, rfl, fun p hbatch hstores => hstores.setBatches ?_⟩
      intro x hx
      rcases mem_append.mp hx with hold | hnew
      · exact hstores _ x hold
      · rw [mem_singleton] at hnew
        exact hnew ▸ hbatch

theorem addBatch_eq_error {batch : BatchData} {err : Error}
    (h : bq.addBatch cfg batch head = .error err) : bq.l1Blocks = [] ∧ err = .panic := by
  unfold addBatch at h
  split at h
  next hempty =>
    cases h
    exact ⟨hempty, rfl⟩
  next =>
    dsimp only at h
    split at h <;> cases h

theorem advance_frame (bq : BatchQueue) (origin : L1BlockRef) (behind : Bool) :
    (bq.advance origin behind).batches = bq.batches ∧
      (bq.advance origin behind).origin = origin := by
  unfold advance
  split
  next h => exact ⟨rfl, h⟩
  next => exact ⟨rfl, rfl⟩

inductive NextEffect (cfg : Config) (prev : ReaderAnswers) (bq : BatchQueue) (head : L2BlockRef) :
    List L1BlockRef → Except Error BatchData → Prop
  | behind {err : Error} (hbehind : bq.origin.number < head.l1Origin.number)
      (herr : err = .eof ∨ err = .notEnoughData ∨ prev.nextBatch = .error err) :
      NextEffect cfg prev bq head (bq.advance prev.origin true).l1Blocks (.error err)
  | failed {err : Error} (hready : ¬ bq.origin.number < head.l1Origin.number)
      (herr : prev.nextBatch = .error err) :
      NextEffect cfg prev bq head (bq.advance prev.origin false).l1Blocks (.error err)
  | unprepared (hready : ¬ bq.origin.number < head.l1Origin.number)
      (hempty : (bq.advance prev.origin false).l1Blocks = []) :
      NextEffect cfg prev bq head [] (.error .panic)
  | derived {queue : BatchQueue} {blocks : List L1BlockRef} {result : Except Error BatchData}
      (hready : ¬ bq.origin.number < head.l1Origin.number)
      (hblocks : queue.l1Blocks = (bq.advance prev.origin false).l1Blocks)
      (hstores : ∀ p : Uint64 → BatchData → Prop,
        (∀ b, prev.nextBatch = .ok b → p b.timestamp b) → bq.Stores p → queue.Stores p)
      (heffect : DeriveEffect cfg queue head blocks result) :
      NextEffect cfg prev bq head blocks result
  | more {queue : BatchQueue} {blocks : List L1BlockRef}
      (hready : ¬ bq.origin.number < head.l1Origin.number)
      (hblocks : queue.l1Blocks = (bq.advance prev.origin false).l1Blocks)
      (heffect : DeriveEffect cfg queue head blocks (.error .eof)) :
      NextEffect cfg prev bq head blocks (.error .notEnoughData)

variable {prev : ReaderAnswers}

theorem NextEffect.of_ok {blocks : List L1BlockRef} {batch : BatchData}
    (h : NextEffect cfg prev bq head blocks (.ok batch)) :
    ¬ bq.origin.number < head.l1Origin.number ∧ ∃ queue : BatchQueue,
      queue.l1Blocks = (bq.advance prev.origin false).l1Blocks ∧
      (∀ p : Uint64 → BatchData → Prop, (∀ b, prev.nextBatch = .ok b → p b.timestamp b) →
        bq.Stores p → queue.Stores p) ∧ DeriveEffect cfg queue head blocks (.ok batch) := by
  cases h with
  | derived hready hblocks hstores heffect => exact ⟨hready, _, hblocks, hstores, heffect⟩

theorem nextBatch_effect (prev : ReaderAnswers) (bq : BatchQueue) (head : L2BlockRef) :
    NextEffect cfg prev bq head (bq.nextBatch cfg prev head).1.l1Blocks
      (bq.nextBatch cfg prev head).2 := by
  unfold nextBatch
  by_cases hbehind : bq.origin.number < head.l1Origin.number
  · simp only [hbehind, decide_true, if_true]
    split
    next => exact .behind hbehind (.inl rfl)
    next err _ herr => exact .behind hbehind (.inr (.inr herr))
    next => exact .behind hbehind (.inr (.inl rfl))
  · simp only [hbehind, decide_false, Bool.false_eq_true, if_false]
    split
    next =>
      exact .derived hbehind rfl (fun p _ hstores => hstores.congr (advance_frame ..).1)
        (deriveNextBatch_effect ..)
    next err _ herr => exact .failed hbehind herr
    next batch hbatch =>
      split
      next err hadd =>
        obtain ⟨hempty, rfl⟩ := addBatch_eq_error hadd
        rw [hempty]
        exact .unprepared hbehind hempty
      next queue hadd =>
        obtain ⟨hblocks, -, hstored⟩ := addBatch_eq_ok hadd
        split
        next after heof =>
          have heffect : DeriveEffect cfg queue head _ _ := deriveNextBatch_effect queue false head
          rw [heof] at heffect
          exact .more hbehind hblocks heffect
        next =>
          refine .derived hbehind hblocks ?_ (deriveNextBatch_effect ..)
          intro p hprev hstores
          exact hstored p (hprev batch hbatch) (hstores.congr (advance_frame ..).1)

theorem nextBatch_frame (cfg : Config) (prev : ReaderAnswers) (bq : BatchQueue)
    (head : L2BlockRef) :
    (bq.nextBatch cfg prev head).1.origin = prev.origin ∧
      ∀ p, (∀ b, prev.nextBatch = .ok b → p b.timestamp b) → bq.Stores p →
        (bq.nextBatch cfg prev head).1.Stores p := by
  have hadvance : ∀ behind, (bq.advance prev.origin behind).origin = prev.origin ∧
      ∀ p : Uint64 → BatchData → Prop, (∀ b, prev.nextBatch = .ok b → p b.timestamp b) →
        bq.Stores p → (bq.advance prev.origin behind).Stores p := by
    intro behind
    obtain ⟨hbatches, horigin⟩ := advance_frame bq prev.origin behind
    exact ⟨horigin, fun p _ h => h.congr hbatches⟩
  unfold nextBatch
  dsimp only
  split
  next =>
    split
    next => exact hadvance _
    next =>
      obtain ⟨horigin, hstores⟩ := deriveNextBatch_frame cfg
        (bq.advance prev.origin (decide (bq.origin.number < head.l1Origin.number))) true head
      exact ⟨horigin.trans (hadvance _).1, fun p hprev h => hstores p ((hadvance _).2 p hprev h)⟩
  next => exact hadvance _
  next batch hbatch =>
    split
    next => exact hadvance _
    next =>
      split
      next => exact hadvance _
      next queue hadd =>
        obtain ⟨-, hsame, hstored⟩ := addBatch_eq_ok hadd
        obtain ⟨horigin, hstores⟩ := deriveNextBatch_frame cfg queue false head
        rw [hsame, (hadvance _).1] at horigin
        have hkept : ∀ p : Uint64 → BatchData → Prop,
            (∀ b, prev.nextBatch = .ok b → p b.timestamp b) → bq.Stores p → _ :=
          fun p hprev h => hstores p (hstored p (hprev batch hbatch) ((hadvance _).2 p hprev h))
        split
        next heof =>
          rw [heof] at horigin hkept
          exact ⟨horigin, hkept⟩
        next => exact ⟨horigin, hkept⟩

theorem nextBatch_eq {result : Except Error BatchData}
    (h : bq.nextBatch cfg prev head = (queue, result)) :
    NextEffect cfg prev bq head queue.l1Blocks result ∧ queue.origin = prev.origin := by
  have heffect : NextEffect cfg prev bq head _ _ := nextBatch_effect prev bq head
  have hframe := nextBatch_frame cfg prev bq head
  rw [h] at heffect hframe
  exact ⟨heffect, hframe.1⟩

end BatchQueue

end Derive
