import TokamakTitan.Derive.BatchQueue

/-! Which of the buffered batches the queue takes next, and which it keeps. The first batch that is
not dropped decides: it is returned, or the queue waits for more of L1. -/
namespace Derive
open List

structure DeriveCall where
  queue : BatchQueue
  outOfData : Bool
  head : L2BlockRef

namespace BatchQueue

def nextTimestamp (cfg : Config) (head : L2BlockRef) : Uint64 := head.time + cfg.blockTime

def verdict (cfg : Config) (bq : BatchQueue) (head : L2BlockRef) (x : BatchWithL1InclusionBlock) :
    BatchValidity :=
  checkBatch cfg bq.l1Blocks head x.l1InclusionBlock x.batch

/-- The first buffered batch for the next timestamp that is not dropped, with the dropped ones in
front of it and the unexamined ones behind it. -/
structure Meets (cfg : Config) (bq : BatchQueue) (head : L2BlockRef)
    (dropped : List BatchWithL1InclusionBlock) (first : BatchWithL1InclusionBlock)
    (later : List BatchWithL1InclusionBlock) : Prop where
  buffered : bq.batches (nextTimestamp cfg head) = dropped ++ first :: later
  dropped : ∀ x ∈ dropped, bq.verdict cfg head x = .drop
  stops : bq.verdict cfg head first ≠ .drop

/-- The origin is behind the last block of the epoch's window, or at it with nothing left to read.
-/
def WindowExpired (cfg : Config) (bq : BatchQueue) (outOfData : Bool) : Prop :=
  ∃ epoch, bq.l1Blocks.head? = some epoch ∧
    epoch.number + cfg.seqWindowSize ≤ bq.origin.number ∧
    (epoch.number + cfg.seqWindowSize = bq.origin.number → outOfData = true)

/-- The first seen batch wins, and no other is lost: `after` is buffered after the derivation, and
`result` is returned. -/
structure FirstSeenWins (cfg : Config) (bq : BatchQueue) (outOfData : Bool) (head : L2BlockRef)
    (after : Uint64 → List BatchWithL1InclusionBlock) (result : Except Error BatchData) : Prop where
  returns : ∀ {dropped first later}, bq.Meets cfg head dropped first later →
    bq.verdict cfg head first = .accept → result = .ok first.batch
  keepsLater : ∀ {dropped first later}, bq.Meets cfg head dropped first later →
    later <:+ after (nextTimestamp cfg head)
  keepsUndecided : ∀ {dropped first later}, bq.Meets cfg head dropped first later →
    bq.verdict cfg head first = .undecided → first :: later <:+ after (nextTimestamp cfg head)
  keepsOthers : ∀ t ≠ nextTimestamp cfg head, after t = bq.batches t
  removes : ∃ (dropped : List BatchWithL1InclusionBlock)
    (returned : Option BatchWithL1InclusionBlock),
    bq.batches (nextTimestamp cfg head) =
      dropped ++ returned.toList ++ after (nextTimestamp cfg head) ∧
    (∀ x ∈ dropped, bq.verdict cfg head x = .drop) ∧
    ∀ x ∈ returned, bq.verdict cfg head x = .accept ∧ result = .ok x.batch
  generates : ∀ {batch}, result = .ok batch →
    (∃ dropped first later, bq.Meets cfg head dropped first later ∧
      bq.verdict cfg head first = .accept ∧ first.batch = batch) ∨
    (∀ x ∈ bq.batches (nextTimestamp cfg head), bq.verdict cfg head x = .drop) ∧
      bq.WindowExpired cfg outOfData

def Prepared (bq : BatchQueue) (head : L2BlockRef) : Prop :=
  ∃ epoch, bq.l1Blocks.head? = some epoch ∧ head.l1Origin = epoch.id

/-- No batch waits behind an undecided one, and none is ready while the queue is not at the origin
of the safe head. -/
structure Unhindered (cfg : Config) (bq : BatchQueue) (head : L2BlockRef) : Prop where
  undecided_last : bq.Prepared head → ∀ {dropped first later},
    bq.Meets cfg head dropped first later → bq.verdict cfg head first = .undecided → later = []
  accepted_prepared : ∀ {dropped first later}, bq.Meets cfg head dropped first later →
    bq.verdict cfg head first = .accept → bq.Prepared head

inductive Selected (cfg : Config) (bq : BatchQueue) (outOfData : Bool) (head : L2BlockRef) :
    (Uint64 → List BatchWithL1InclusionBlock) → Except Error BatchData → Prop
  | refused {err : Error} (hnot : ¬ bq.Prepared head) :
      Selected cfg bq outOfData head bq.batches (.error err)
  | future {dropped first later} {err : Error} (hprepared : bq.Prepared head)
      (hmeets : bq.Meets cfg head dropped first later)
      (hverdict : bq.verdict cfg head first = .future) :
      Selected cfg bq outOfData head bq.batches (.error err)
  | undecided {dropped first later} (hprepared : bq.Prepared head)
      (hmeets : bq.Meets cfg head dropped first later)
      (hverdict : bq.verdict cfg head first = .undecided) :
      Selected cfg bq outOfData head
        (bq.setBatches (nextTimestamp cfg head) [first]).batches (.error .eof)
  | accepted {dropped first later} (hprepared : bq.Prepared head)
      (hmeets : bq.Meets cfg head dropped first later)
      (hverdict : bq.verdict cfg head first = .accept) :
      Selected cfg bq outOfData head
        (bq.setBatches (nextTimestamp cfg head) later).batches (.ok first.batch)
  | exhausted {result : Except Error BatchData} (hprepared : bq.Prepared head)
      (hdropped : ∀ x ∈ bq.batches (nextTimestamp cfg head), bq.verdict cfg head x = .drop)
      (hresult : ∀ batch, result = .ok batch → bq.WindowExpired cfg outOfData) :
      Selected cfg bq outOfData head (bq.setBatches (nextTimestamp cfg head) []).batches result

variable {t : Uint64} {result : Except Error BatchData} {rest : List L1BlockRef} {head : L2BlockRef}
  {bq : BatchQueue} {cfg : Config}

section Selection

variable {outOfData : Bool} {dropped later : List BatchWithL1InclusionBlock}
  {first : BatchWithL1InclusionBlock}

theorem dropped_or_meets (cfg : Config) (bq : BatchQueue) (head : L2BlockRef) :
    (∀ x ∈ bq.batches (nextTimestamp cfg head), bq.verdict cfg head x = .drop) ∨
      ∃ dropped first later, bq.Meets cfg head dropped first later := by
  by_cases hall : ∀ x ∈ bq.batches (nextTimestamp cfg head), bq.verdict cfg head x = .drop
  · exact .inl hall
  · right
    push Not at hall
    -- split in front of the first batch with another verdict
    obtain ⟨first, hfind⟩ := Option.isSome_iff_exists.mp (find?_isSome.mpr
      (by simpa using hall : ∃ x ∈ bq.batches (nextTimestamp cfg head),
        decide (bq.verdict cfg head x ≠ .drop) = true))
    obtain ⟨hstops, dropped, later, hsplit, hdropped⟩ := find?_eq_some_iff_append.mp hfind
    exact ⟨dropped, first, later, hsplit, by simpa using hdropped, by simpa using hstops⟩

theorem selectBatch_skip {l1Blocks : List L1BlockRef}
    (kept rest : List BatchWithL1InclusionBlock) (hdropped : ∀ x ∈ dropped,
      checkBatch cfg l1Blocks head x.l1InclusionBlock x.batch = .drop) :
    selectBatch cfg l1Blocks head kept (dropped ++ rest) =
      selectBatch cfg l1Blocks head kept rest := by
  induction dropped with
  | nil => rfl
  | cons x dropped ih =>
    rw [forall_mem_cons] at hdropped
    rw [cons_append, selectBatch, hdropped.1]
    exact ih hdropped.2

theorem selectBatch_dropped
    (h : ∀ x ∈ bq.batches (nextTimestamp cfg head), bq.verdict cfg head x = .drop) :
    selectBatch cfg bq.l1Blocks head [] (bq.batches (nextTimestamp cfg head)) = .exhausted [] := by
  have hskip := selectBatch_skip [] [] h
  rw [append_nil] at hskip
  exact hskip

theorem Meets.selectBatch_eq (h : bq.Meets cfg head dropped first later) :
    selectBatch cfg bq.l1Blocks head [] (bq.batches (nextTimestamp cfg head)) =
      match bq.verdict cfg head first with
      | .future => .future first
      | .drop => selectBatch cfg bq.l1Blocks head [] later
      | .accept => .accepted first later
      | .undecided => .undecided [first] := by
  rw [h.buffered, selectBatch_skip _ _ h.dropped]
  rfl

theorem Meets.unique {dropped' later' : List BatchWithL1InclusionBlock}
    {first' : BatchWithL1InclusionBlock} (h : bq.Meets cfg head dropped first later)
    (h' : bq.Meets cfg head dropped' first' later') : first' = first ∧ later' = later := by
  have hdrop : ∀ {d f l}, bq.Meets cfg head d f l → (bq.batches (nextTimestamp cfg head)).dropWhile
      (fun x => decide (bq.verdict cfg head x = .drop)) = f :: l := by
    intro d f l hm
    rw [hm.buffered, dropWhile_append_of_pos (by simpa using hm.dropped),
      dropWhile_cons_of_neg (by simpa using hm.stops)]
  have heq := (hdrop h').symm.trans (hdrop h)
  exact cons.inj heq

theorem Meets.not_all_dropped (h : bq.Meets cfg head dropped first later) :
    ¬ ∀ x ∈ bq.batches (nextTimestamp cfg head), bq.verdict cfg head x = .drop := by
  intro hall
  apply h.stops
  apply hall
  rw [h.buffered]
  exact mem_append_right _ mem_cons_self

variable {epoch : L1BlockRef}

theorem windowExpired_of_force (hblocks : bq.l1Blocks = epoch :: rest)
    (h : forceNextEpoch cfg bq epoch outOfData) : bq.WindowExpired cfg outOfData := by
  refine ⟨epoch, by rw [hblocks]; rfl, ?_⟩
  simp only [forceNextEpoch, decide_eq_true_eq] at h
  rcases h with ⟨hat, hout⟩ | hpast
  · exact ⟨BitVec.le_of_eq hat, fun _ => hout⟩
  · exact ⟨BitVec.le_of_lt hpast, fun hat => absurd hat (BitVec.ne_of_lt hpast)⟩

theorem deriveEmptyBatch_forced {batch : BatchData}
    (h : (bq.deriveEmptyBatch cfg epoch rest outOfData head).2 = .ok batch) :
    forceNextEpoch cfg bq epoch outOfData := by
  unfold deriveEmptyBatch at h
  dsimp only at h
  split at h
  next hforce => exact hforce
  next => cases h

theorem deriveNextBatch_selected (cfg : Config) (bq : BatchQueue) (outOfData : Bool)
    (head : L2BlockRef) :
    Selected cfg bq outOfData head (bq.deriveNextBatch cfg outOfData head).1.batches
      (bq.deriveNextBatch cfg outOfData head).2 := by
  unfold deriveNextBatch
  split
  next hblocks =>
    apply Selected.refused
    simp [Prepared, hblocks]
  next epoch rest hblocks =>
    split
    next hne =>
      apply Selected.refused
      simpa [Prepared, hblocks] using hne
    next heq =>
      have hprepared : bq.Prepared head := ⟨epoch, by rw [hblocks]; rfl, not_not.mp heq⟩
      dsimp only
      rcases dropped_or_meets cfg bq head with hall | ⟨dropped, first, later, hmeets⟩
      · have hselect := selectBatch_dropped hall
        rw [hblocks, nextTimestamp] at hselect
        rw [hselect, (deriveEmptyBatch_frame ..).1]
        apply Selected.exhausted hprepared hall
        intro batch hbatch
        have hforce : forceNextEpoch cfg (bq.setBatches (nextTimestamp cfg head) []) epoch
          outOfData := deriveEmptyBatch_forced hbatch
        exact windowExpired_of_force hblocks hforce
      · have hselect := hmeets.selectBatch_eq
        rw [hblocks, nextTimestamp] at hselect
        rw [hselect]
        cases hverdict : bq.verdict cfg head first with
        | drop => exact absurd hverdict hmeets.stops
        | accept =>
          dsimp only
          split <;> exact Selected.accepted hprepared hmeets hverdict
        | undecided => exact Selected.undecided hprepared hmeets hverdict
        | future => exact Selected.future hprepared hmeets hverdict

@[simp] theorem setBatches_same (bq : BatchQueue) (t : Uint64)
    (batches : List BatchWithL1InclusionBlock) : (bq.setBatches t batches).batches t = batches :=
  if_pos rfl

theorem setBatches_other (bq : BatchQueue) {u : Uint64} (hne : u ≠ t)
    (batches : List BatchWithL1InclusionBlock) :
    (bq.setBatches t batches).batches u = bq.batches u :=
  if_neg hne

theorem firstSeenWins_unchanged {err : Error}
    (hnone : ∀ {dropped first later}, bq.Meets cfg head dropped first later →
      bq.verdict cfg head first ≠ .accept) :
    bq.FirstSeenWins cfg outOfData head bq.batches (.error err) := by
  constructor
  case returns => exact fun hmeets haccept => absurd haccept (hnone hmeets)
  case keepsLater =>
    intro dropped first later hmeets
    exact ⟨dropped ++ [first], by simp [hmeets.buffered]⟩
  case keepsUndecided =>
    intro dropped first later hmeets _
    exact ⟨dropped, hmeets.buffered.symm⟩
  case keepsOthers => exact fun _ _ => rfl
  case removes => exact ⟨[], none, by simp⟩
  case generates =>
    intro batch hok
    cases hok

variable {after : Uint64 → List BatchWithL1InclusionBlock}

theorem Selected.firstSeenWins (h : Selected cfg bq outOfData head after result)
    (hfree : bq.Unhindered cfg head) : bq.FirstSeenWins cfg outOfData head after result := by
  cases h with
  | refused hnot =>
    apply firstSeenWins_unchanged
    exact fun hmeets haccept => hnot (hfree.accepted_prepared hmeets haccept)
  | future _ hmeets hverdict =>
    apply firstSeenWins_unchanged
    intro dropped first later hmeets' haccept
    obtain ⟨rfl, rfl⟩ := hmeets.unique hmeets'
    simp [hverdict] at haccept
  | @undecided dropped first later hprepared hmeets hverdict =>
    obtain rfl := hfree.undecided_last hprepared hmeets hverdict
    constructor
    case returns =>
      intro dropped' first' later' hmeets' haccept
      obtain ⟨rfl, rfl⟩ := hmeets.unique hmeets'
      simp [hverdict] at haccept
    case keepsLater =>
      intro dropped' first' later' hmeets'
      obtain ⟨rfl, rfl⟩ := hmeets.unique hmeets'
      exact nil_suffix
    case keepsUndecided =>
      intro dropped' first' later' hmeets' _
      obtain ⟨rfl, rfl⟩ := hmeets.unique hmeets'
      rw [setBatches_same]
    case keepsOthers => exact fun t hne => bq.setBatches_other hne _
    case removes => exact ⟨dropped, none, by simp [hmeets.buffered], hmeets.dropped, by simp⟩
    case generates =>
      intro batch hok
      cases hok
  | @accepted dropped first later _ hmeets hverdict =>
    constructor
    case returns =>
      intro dropped' first' later' hmeets' _
      obtain ⟨rfl, rfl⟩ := hmeets.unique hmeets'
      rfl
    case keepsLater =>
      intro dropped' first' later' hmeets'
      obtain ⟨rfl, rfl⟩ := hmeets.unique hmeets'
      rw [setBatches_same]
    case keepsUndecided =>
      intro dropped' first' later' hmeets' hundecided
      obtain ⟨rfl, rfl⟩ := hmeets.unique hmeets'
      simp [hverdict] at hundecided
    case keepsOthers => exact fun t hne => bq.setBatches_other hne _
    case removes =>
      exact ⟨dropped, some first, by simp [hmeets.buffered], hmeets.dropped, by simp [hverdict]⟩
    case generates =>
      intro batch hok
      cases hok
      exact .inl ⟨dropped, first, later, hmeets, hverdict, rfl⟩
  | exhausted _ hdropped hwindow =>
    constructor
    case returns => exact fun hmeets _ => absurd hdropped hmeets.not_all_dropped
    case keepsLater => exact fun hmeets => absurd hdropped hmeets.not_all_dropped
    case keepsUndecided => exact fun hmeets _ => absurd hdropped hmeets.not_all_dropped
    case keepsOthers => exact fun t hne => bq.setBatches_other hne _
    case removes => exact ⟨_, none, by simp, hdropped, by simp⟩
    case generates => exact fun hok => .inr ⟨hdropped, hwindow _ hok⟩

theorem Selected.unhindered (h : Selected cfg bq outOfData head after result)
    (hwins : bq.FirstSeenWins cfg outOfData head after result) : bq.Unhindered cfg head := by
  constructor
  case accepted_prepared =>
    intro dropped first later hmeets haccept
    cases h with
    | refused => cases hwins.returns hmeets haccept
    | future hprepared | undecided hprepared | accepted hprepared | exhausted hprepared =>
      exact hprepared
  case undecided_last =>
    intro hprepared dropped first later hmeets hundecided
    have hkept := hwins.keepsUndecided hmeets hundecided
    cases h with
    | refused hnot => exact absurd hprepared hnot
    | future _ hmeets' hverdict | accepted _ hmeets' hverdict =>
      obtain ⟨rfl, rfl⟩ := hmeets'.unique hmeets
      simp [hverdict] at hundecided
    | undecided =>
      rw [setBatches_same] at hkept
      have hlength := hkept.length_le
      simpa using hlength
    | exhausted _ hdropped => exact absurd hdropped hmeets.not_all_dropped

theorem firstSeenWins_iff (cfg : Config) (bq : BatchQueue) (outOfData : Bool) (head : L2BlockRef) :
    bq.FirstSeenWins cfg outOfData head (bq.deriveNextBatch cfg outOfData head).1.batches
      (bq.deriveNextBatch cfg outOfData head).2 ↔ bq.Unhindered cfg head :=
  ⟨(deriveNextBatch_selected cfg bq outOfData head).unhindered,
    (deriveNextBatch_selected cfg bq outOfData head).firstSeenWins⟩

end Selection

/-- The derivation that a call of `nextBatch` makes, if it gets to it. -/
def derivation (cfg : Config) (prev : ReaderAnswers) (bq : BatchQueue) (safeL2Head : L2BlockRef) :
    Option DeriveCall :=
  if bq.origin.number < safeL2Head.l1Origin.number then none
  else
    let bq := bq.advance prev.origin false
    match prev.nextBatch with
    | .error .eof => some ⟨bq, true, safeL2Head⟩
    | .error _ => none
    | .ok batch =>
      match bq.addBatch cfg batch safeL2Head with
      | .error _ => none
      | .ok bq => some ⟨bq, false, safeL2Head⟩

/-- The queue after a run of calls, each with the channel reader's answers and the safe head. -/
def runCalls (cfg : Config) (bq : BatchQueue) (calls : List (ReaderAnswers × L2BlockRef)) :
    BatchQueue :=
  calls.foldl (fun bq call => (bq.nextBatch cfg call.1 call.2).1) bq

def derivations (cfg : Config) : BatchQueue → List (ReaderAnswers × L2BlockRef) → List DeriveCall
  | _, [] => []
  | bq, call :: calls => (derivation cfg call.1 bq call.2).toList ++
      derivations cfg (bq.nextBatch cfg call.1 call.2).1 calls

def Settles (cfg : Config) (d : DeriveCall) (t : Uint64) (x : BatchWithL1InclusionBlock) : Prop :=
  t = nextTimestamp cfg d.head ∧
    (d.queue.verdict cfg d.head x = .drop ∨ d.queue.verdict cfg d.head x = .accept ∧
      (d.queue.deriveNextBatch cfg d.outOfData d.head).2 = .ok x.batch)

section Runs

variable {x : BatchWithL1InclusionBlock}

theorem mem_addBatch {batch : BatchData} {queue : BatchQueue}
    (h : bq.addBatch cfg batch head = .ok queue) (hx : x ∈ bq.batches t) : x ∈ queue.batches t := by
  unfold addBatch at h
  split at h
  next => cases h
  next =>
    dsimp only at h
    split at h
    next =>
      cases h
      exact hx
    next =>
      cases h
      by_cases heq : t = batch.timestamp
      · subst heq
        rw [setBatches_same]
        exact mem_append_left _ hx
      · rwa [setBatches_other _ heq]

theorem mem_derivation {prev : ReaderAnswers} {d : DeriveCall}
    (h : derivation cfg prev bq head = some d) (hx : x ∈ bq.batches t) : x ∈ d.queue.batches t := by
  unfold derivation at h
  split at h
  next => cases h
  next =>
    dsimp only at h
    split at h
    next =>
      cases h
      rwa [(advance_frame ..).1]
    next => cases h
    next batch _ =>
      split at h
      next => cases h
      next queue hadd =>
        cases h
        apply mem_addBatch hadd
        rwa [(advance_frame ..).1]

theorem nextBatch_batches (prev : ReaderAnswers) (bq : BatchQueue) (head : L2BlockRef) :
    (bq.nextBatch cfg prev head).1.batches =
      match derivation cfg prev bq head with
      | none => bq.batches
      | some d => (d.queue.deriveNextBatch cfg d.outOfData d.head).1.batches := by
  unfold nextBatch derivation
  by_cases hbehind : bq.origin.number < head.l1Origin.number
  · simp only [hbehind, decide_true, if_true]
    split <;> exact (advance_frame ..).1
  · simp only [hbehind, decide_false, Bool.false_eq_true, if_false]
    cases hprev : prev.nextBatch with
    | error err =>
      cases err with
      | eof => rfl
      | _ => exact (advance_frame ..).1
    | ok batch =>
      dsimp only
      cases hadd : (bq.advance prev.origin false).addBatch cfg batch head with
      | error => exact (advance_frame ..).1
      | ok =>
        dsimp only
        split
        next after heof => rw [heof]
        next => rfl

theorem FirstSeenWins.kept_or_settled {d : DeriveCall} (h : d.queue.FirstSeenWins cfg d.outOfData
      d.head (d.queue.deriveNextBatch cfg d.outOfData d.head).1.batches (d.queue.deriveNextBatch cfg
      d.outOfData d.head).2) (hx : x ∈ d.queue.batches t) :
    x ∈ (d.queue.deriveNextBatch cfg d.outOfData d.head).1.batches t ∨ Settles cfg d t x := by
  by_cases ht : t = nextTimestamp cfg d.head
  · subst ht
    obtain ⟨dropped, returned, hsplit, hdropped, hreturned⟩ := h.removes
    rw [hsplit, mem_append, mem_append] at hx
    rcases hx with (hx | hx) | hx
    · exact .inr ⟨rfl, .inl (hdropped x hx)⟩
    · exact .inr ⟨rfl, .inr (hreturned x (Option.mem_toList.mp hx))⟩
    · exact .inl hx
  · rw [h.keepsOthers t ht]
    exact .inl hx

theorem runCalls_kept_or_settled {calls : List (ReaderAnswers × L2BlockRef)}
    (h : ∀ d ∈ derivations cfg bq calls, d.queue.Unhindered cfg d.head) (hx : x ∈ bq.batches t) :
    x ∈ (bq.runCalls cfg calls).batches t ∨ ∃ d ∈ derivations cfg bq calls, Settles cfg d t x := by
  induction calls generalizing bq with
  | nil => exact .inl hx
  | cons call calls ih =>
    rw [derivations] at h ⊢
    rw [forall_mem_append] at h
    have hstep : x ∈ (bq.nextBatch cfg call.1 call.2).1.batches t ∨
        ∃ d ∈ (derivation cfg call.1 bq call.2).toList, Settles cfg d t x := by
      rw [nextBatch_batches]
      cases hd : derivation cfg call.1 bq call.2 with
      | none => exact .inl hx
      | some d =>
        have hfree : d.queue.Unhindered cfg d.head := h.1 d (by simp [hd])
        rcases ((firstSeenWins_iff cfg _ _ _).mpr hfree).kept_or_settled (mem_derivation hd hx)
          with hkept | hsettled
        · exact .inl hkept
        · exact .inr ⟨d, by simp, hsettled⟩
    rcases hstep with hkept | ⟨d, hd, hsettled⟩
    · rcases ih h.2 hkept with hlast | ⟨d, hd, hsettled⟩
      · exact .inl hlast
      · exact .inr ⟨d, mem_append_right _ hd, hsettled⟩
    · exact .inr ⟨d, mem_append_left _ hd, hsettled⟩

/-- The first seen batch wins in exactly the derivations that nothing hinders. In a run of these
every buffered batch stays until it is dropped or returned. -/
theorem first_seen_batch_wins_iff (cfg : Config) :
    (∀ (bq : BatchQueue) (outOfData : Bool) (head : L2BlockRef),
      bq.FirstSeenWins cfg outOfData head (bq.deriveNextBatch cfg outOfData head).1.batches
        (bq.deriveNextBatch cfg outOfData head).2 ↔ bq.Unhindered cfg head) ∧
    ∀ (bq : BatchQueue) (calls : List (ReaderAnswers × L2BlockRef)),
      (∀ d ∈ derivations cfg bq calls, d.queue.Unhindered cfg d.head) →
      ∀ t, ∀ x ∈ bq.batches t, x ∈ (bq.runCalls cfg calls).batches t ∨
        ∃ d ∈ derivations cfg bq calls, Settles cfg d t x :=
  ⟨firstSeenWins_iff cfg, fun _ _ h _ _ hx => runCalls_kept_or_settled h hx⟩

theorem unhindered_of_length_le {bq : BatchQueue} (hprepared : bq.Prepared head)
    (h : (bq.batches (nextTimestamp cfg head)).length ≤ 1) : bq.Unhindered cfg head := by
  constructor
  case undecided_last =>
    intro _ dropped first later hmeets _
    rw [hmeets.buffered] at h
    simp only [length_append, length_cons] at h
    exact length_eq_zero_iff.mp (by omega)
  case accepted_prepared => exact fun _ _ => hprepared

end Runs

def lostHead : L2BlockRef := ⟨1, 5, 0, 130, (numberedBlock 10).id, 0⟩

def lostBatch (number : Uint64) (hash : Hash) : BatchData where
  parentHash := 1
  epochNum := number
  epochHash := hash
  timestamp := 132
  transactions := []

/-- A batch of an unknown block 11, a valid batch in the epoch of block 10, and then block 11. -/
def lostCalls : List (ReaderAnswers × L2BlockRef) :=
  [({ origin := numberedBlock 10, nextBatch := .ok (lostBatch 11 99) }, lostHead),
    ({ origin := numberedBlock 10, nextBatch := .ok (lostBatch 10 10) }, lostHead),
    ({ origin := numberedBlock 10, nextBatch := .error .eof }, lostHead),
    ({ origin := numberedBlock 11, nextBatch := .error .eof }, lostHead)]

def lostRuns : List DeriveCall :=
  derivations devnetConfig (reset (numberedBlock 10)) lostCalls

def hinderedDerivation : DeriveCall := lostRuns.get ⟨1, by decide +kernel⟩

theorem hinderedDerivation_meets : hinderedDerivation.queue.Meets devnetConfig
    hinderedDerivation.head [] ⟨numberedBlock 10, lostBatch 11 99⟩
      [⟨numberedBlock 10, lostBatch 10 10⟩] := by
  constructor <;> decide +kernel

/-- The first batch is undecided until block 11 shows that it is invalid. By then the valid batch
behind it is gone, neither dropped nor returned. -/
theorem accepted_batch_lost :
    (hinderedDerivation ∈ lostRuns ∧
      hinderedDerivation.queue.batches 132 =
        [⟨numberedBlock 10, lostBatch 11 99⟩, ⟨numberedBlock 10, lostBatch 10 10⟩] ∧
      ¬ hinderedDerivation.queue.FirstSeenWins devnetConfig hinderedDerivation.outOfData
        hinderedDerivation.head
        (hinderedDerivation.queue.deriveNextBatch devnetConfig hinderedDerivation.outOfData
          hinderedDerivation.head).1.batches
        (hinderedDerivation.queue.deriveNextBatch devnetConfig hinderedDerivation.outOfData
          hinderedDerivation.head).2) ∧
    ((reset (numberedBlock 10)).runCalls devnetConfig lostCalls).batches 132 = [] ∧
    ∀ d ∈ lostRuns,
      d.queue.verdict devnetConfig d.head ⟨numberedBlock 10, lostBatch 10 10⟩ = .accept ∧
      (d.queue.deriveNextBatch devnetConfig d.outOfData d.head).2 ≠ .ok (lostBatch 10 10) := by
  refine ⟨⟨List.get_mem _ _, hinderedDerivation_meets.buffered, ?_⟩, ?_, ?_⟩
  · intro hwins
    have hkept := (hwins.keepsLater hinderedDerivation_meets).subset List.mem_cons_self
    revert hkept
    decide +kernel
  · decide +kernel
  · decide +kernel

def lostQueue : BatchQueue :=
  (reset (numberedBlock 10)).setBatches 132 [⟨numberedBlock 10, lostBatch 10 10⟩]

def lostCall : ReaderAnswers × L2BlockRef :=
  ({ origin := numberedBlock 10, nextBatch := .error .eof }, lostHead)

theorem first_seen_batch_wins_sample :
    lostQueue.FirstSeenWins devnetConfig true lostHead
      (lostQueue.deriveNextBatch devnetConfig true lostHead).1.batches
      (.ok (lostBatch 10 10)) ∧
    ∃ d ∈ derivations devnetConfig lostQueue [lostCall],
      Settles devnetConfig d 132 ⟨numberedBlock 10, lostBatch 10 10⟩ := by
  have hfree : lostQueue.Unhindered devnetConfig lostHead :=
    unhindered_of_length_le ⟨numberedBlock 10, rfl, rfl⟩ (by decide +kernel)
  have hderivations : derivations devnetConfig lostQueue [lostCall] =
      [⟨lostQueue, true, lostHead⟩] := by rfl
  constructor
  · exact ((first_seen_batch_wins_iff devnetConfig).1 lostQueue true lostHead).mpr hfree
  · rcases (first_seen_batch_wins_iff devnetConfig).2 lostQueue [lostCall]
      (by simpa [hderivations] using hfree) 132 ⟨numberedBlock 10, lostBatch 10 10⟩
      (by decide +kernel) with hkept | hsettled
    · exact absurd hkept (by decide +kernel)
    · exact hsettled

end BatchQueue

end Derive
