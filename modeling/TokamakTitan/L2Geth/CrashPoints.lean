import TokamakTitan.L2Geth.FailedTransaction

/-! The writes of a call that applies a transaction to the tip. A crash after one of them leaves a
stage of the call on disk. -/
namespace L2Geth.Rollup
open Traced (Program get modify fail Meets)

structure Record where
  headIndex : Option ℕ
  headQueueIndex : Option ℕ
  headVerifiedIndex : Option ℕ
  headBatchIndex : Option ℕ
  chain : List Transaction
  mismatched : List ℕ
  exchanges : List Exchange

def SyncService.record (s : SyncService) : Record where
  headIndex := s.headIndex
  headQueueIndex := s.headQueueIndex
  headVerifiedIndex := s.headVerifiedIndex
  headBatchIndex := s.headBatchIndex
  chain := s.chain
  mismatched := s.mismatched
  exchanges := s.exchanges

variable (env : Env)

def answered (s : SyncService) (tx : Transaction) (chain : List Transaction) : Record :=
  {(advanced env s tx).record with
    chain
    exchanges := .inclusion (stamped env s tx).index :: s.exchanges}

def answeredChain (s : SyncService) (tx : Transaction) : Inclusion → List Transaction
  | .failed _ => s.chain
  | .included _ => s.chain ++ [stamped env s tx]

def Included (s : SyncService) (tx : Transaction) (r : Record) : Prop :=
  ∃ oracle, env.miner s.exchanges.length (stamped env s tx) = .included oracle ∧
    r = answered env s tx (s.chain ++ [stamped env s tx])

/-- The transaction was refused, the miner has failed it, or the slots of the gas price oracle could
not be read after the block. -/
inductive Rejected (env : Env) (s : SyncService) (tx : Transaction) : Error → Record → Prop
  | refused (lacks : LacksTimestamp tx) : Rejected env s tx .missingTimestamp s.record
  | failed (reason : String)
      (miner : env.miner s.exchanges.length (stamped env s tx) = .failed reason) :
      Rejected env s tx (.inclusion reason) (undone env s tx).record
  | oracle (reason : String)
      (miner : env.miner s.exchanges.length (stamped env s tx) = .included (.error reason)) :
      Rejected env s tx (.gasPriceOracle reason)
        {(undone env s tx).record with chain := s.chain ++ [stamped env s tx]}

inductive Stage (env : Env) (s : SyncService) (tx : Transaction) : Record → Prop
  | before : Stage env s tx s.record
  | indexed : Stage env s tx {s.record with headIndex := (stamped env s tx).index}
  | queued : Stage env s tx (advanced env s tx).record
  | failed (reason : String)
      (miner : env.miner s.exchanges.length (stamped env s tx) = .failed reason) :
      Stage env s tx (answered env s tx s.chain)
  | included {r : Record} (included : Included env s tx r) : Stage env s tx r
  | rejected {e : Error} {r : Record} (rejected : Rejected env s tx e r) : Stage env s tx r

variable {P : Record → Prop} {A : Unit → SyncService → Prop} {s : SyncService}

section Writes
variable {Inv : SyncService → Prop} {E : Error → SyncService → Prop}

theorem meets_setHead {write : ℕ → SyncService → SyncService} {index : Option ℕ}
    (hnone : index = none → A () s)
    (hsome : ∀ i, index = some i → Inv (write i s) ∧ A () (write i s)) :
    Meets Inv (setHead write index) s A E := by
  cases index with
  | none => exact .pure (hnone rfl)
  | some i => exact .modify (hsome i rfl).1 (hsome i rfl).2

theorem meets_assignBlockNumber (bn : ℕ) (tx : Transaction) (h : P s.record) :
    Meets (fun t => P t.record) (assignBlockNumber bn tx) s
      (fun a t => a = {tx with l1BlockNumber := some (tx.l1BlockNumber.getD bn)} ∧
        t.record = s.record) E := by
  unfold assignBlockNumber
  cases hn : tx.l1BlockNumber with
  | none => exact .pure ⟨by simp, rfl⟩
  | some number =>
    have htx : tx = {tx with l1BlockNumber := some ((some number).getD bn)} := by
      rw [Option.getD_some, ← hn]
    have hwrite : Meets (fun t => P t.record)
        (advanceBlockNumber bn number) s (fun _ t => t.record = s.record) E := by
      unfold advanceBlockNumber
      split
      · exact .modify h rfl
      · exact .pure rfl
    exact .bind hwrite fun _ t ht => .pure ⟨htx, ht⟩

theorem meets_storeTimestamp (ts : ℕ) (tx : Transaction) (h : P s.record) :
    Meets (fun t => P t.record) (storeTimestamp ts tx) s (fun _ t => t.record = s.record) E := by
  unfold storeTimestamp
  split
  · exact .modify h rfl
  · exact .pure rfl

theorem meets_undoIndexes (ts bn : ℕ) (index : Option ℕ) (h : P s.record)
    (hundone : P {s.record with headIndex := index.or s.headIndex}) :
    Meets (fun t => P t.record) (undoIndexes ts bn index) s
      (fun _ t => t.record = {s.record with headIndex := index.or s.headIndex}) E := by
  refine .bind (B := fun _ t => t.record = s.record) (.modify h rfl) fun _ t ht => ?_
  refine .bind (B := fun _ t => t.record = s.record) (.modify (ht ▸ h) ht) fun _ u hu => ?_
  have hwritten : ∀ i, index = some i →
      ({u with headIndex := some i} : SyncService).record =
        {s.record with headIndex := index.or s.headIndex} := by
    rintro i rfl
    show ({u.record with headIndex := some i} : Record) = _
    rw [hu]
    rfl
  refine meets_setHead ?_ fun i hi => ⟨?_, hwritten i hi⟩
  · rintro rfl
    exact hu
  · show P ({u with headIndex := some i} : SyncService).record
    rw [hwritten i hi]
    exact hundone

theorem meets_request {α : Type} {answer : ℕ → Except RpcError α}
    {A : α → SyncService → Prop}
    (hok : ∀ a, answer s.exchanges.length = .ok a →
      Inv {s with exchanges := .element none :: s.exchanges} ∧
        A a {s with exchanges := .element none :: s.exchanges})
    (herror : ∀ reason, answer s.exchanges.length = .error reason →
      Inv {s with exchanges := .element (some reason) :: s.exchanges} ∧
        E (.rpc reason) {s with exchanges := .element (some reason) :: s.exchanges}) :
    Meets Inv (request answer) s A E := by
  unfold request
  refine .get_bind ?_
  cases h : answer s.exchanges.length with
  | ok a =>
    refine .bind (B := fun _ => A a) (.modify (hok a h).1 (hok a h).2) fun _ t ht => .pure ht
  | error reason =>
    refine .bind (B := fun _ => E (.rpc reason)) (.modify (herror reason h).1 (herror reason h).2)
      fun _ t ht => .fail ht

end Writes

variable {env : Env} {tx : Transaction}

variable {t : SyncService} {E : Error → SyncService → Prop}

theorem meets_includeTransaction (hrecord : t.record = (advanced env s tx).record)
    (hfailed : ∀ reason, env.miner s.exchanges.length (stamped env s tx) = .failed reason → P
      (answered env s tx s.chain))
    (hincluded : ∀ oracle, env.miner s.exchanges.length (stamped env s tx) = .included oracle → P
      (answered env s tx (s.chain ++ [stamped env s tx]))) :
    Meets (fun u => P u.record) (includeTransaction env (stamped env s tx)) t
      (fun answer u => env.miner s.exchanges.length (stamped env s tx) = answer ∧
        u.record = answered env s tx (answeredChain env s tx answer)) E := by
  have hex : t.exchanges = s.exchanges := congrArg Record.exchanges hrecord
  have hchain : t.chain = s.chain := congrArg Record.chain hrecord
  have hfail : ({t with exchanges := .inclusion (stamped env s tx).index :: t.exchanges} :
      SyncService).record = answered env s tx s.chain := by
    rw [answered, ← hrecord, ← hex, ← hchain]
    rfl
  have hincl : ({t with
      chain := t.chain ++ [stamped env s tx]
      exchanges := .inclusion (stamped env s tx).index :: t.exchanges} : SyncService).record =
        answered env s tx (s.chain ++ [stamped env s tx]) := by
    rw [answered, ← hrecord, ← hex, ← hchain]
    rfl
  unfold includeTransaction
  refine .get_bind ?_
  rw [hex]
  cases hm : env.miner s.exchanges.length (stamped env s tx) with
  | failed reason =>
    refine .bind (B := fun _ u => u.record = answered env s tx s.chain) (.modify ?_ hfail)
      fun _ u hu => .pure ⟨rfl, hu⟩
    rw [hfail]
    exact hfailed reason hm
  | included oracle =>
    refine .bind (B := fun _ u => u.record = answered env s tx (s.chain ++ [stamped env s tx]))
      (.modify ?_ hincl) fun _ u hu => .pure ⟨rfl, hu⟩
    rw [hincl]
    exact hincluded oracle hm

theorem meets_undo_fail {chain : List Transaction} {e : Error}
    (hrecord : t.record = answered env s tx chain)
    (hanswered : Stage env s tx (answered env s tx chain))
    (hundone : Rejected env s tx e {(undone env s tx).record with chain}) :
    Meets (fun u => Stage env s tx u.record)
      (undoIndexes s.timestamp s.blockNumber s.headIndex >>= fun _ => fail e) t A
      (fun e u => Rejected env s tx e u.record) := by
  have hindex : {t.record with headIndex := s.headIndex.or t.headIndex} =
      {(undone env s tx).record with chain} := by
    have hhead : t.headIndex = (stamped env s tx).index := congrArg Record.headIndex hrecord
    rw [hrecord, hhead]
    rfl
  refine .bind (meets_undoIndexes _ _ _ (hrecord ▸ hanswered) (hindex ▸ .rejected hundone))
    fun _ u hu => .fail ?_
  rw [hu, hindex]
  exact hundone

theorem meets_finishInclusion {answer : Inclusion}
    (hm : env.miner s.exchanges.length (stamped env s tx) = answer)
    (hrecord : t.record = answered env s tx (answeredChain env s tx answer)) :
    Meets (fun u => Stage env s tx u.record)
      (finishInclusion s.timestamp s.blockNumber s.headIndex (stamped env s tx) answer) t
      (fun _ u => Included env s tx u.record) (fun e u => Rejected env s tx e u.record) := by
  cases answer with
  | failed reason => exact meets_undo_fail hrecord (.failed reason hm) (.failed reason hm)
  | included oracle =>
    have hstage : Stage env s tx t.record := .included ⟨oracle, hm, hrecord⟩
    unfold finishInclusion
    refine .get_bind ?_
    split
    · cases oracle with
      | ok => exact .modify hstage ⟨_, hm, hrecord⟩
      | error reason =>
        exact meets_undo_fail hrecord (.included ⟨_, hm, rfl⟩) (.oracle reason hm)
    · exact .pure ⟨_, hm, hrecord⟩

theorem meets_setLatestIndex (hrecord : t.record = s.record) :
    Meets (fun u => Stage env s tx u.record) (setLatestIndex (stamped env s tx).index) t
      (fun _ u => u.record = {s.record with headIndex := (stamped env s tx).index}) E := by
  refine meets_setHead (fun hnone => ?_) fun i hi => ?_
  · rw [stamped_index] at hnone
    cases hnone
  · have hwritten : ({t with headIndex := some i} : SyncService).record =
        {s.record with headIndex := (stamped env s tx).index} := by
      show ({t.record with headIndex := some i} : Record) = _
      rw [hrecord, ← hi]
    exact ⟨hwritten ▸ .indexed, hwritten⟩

theorem meets_setLatestEnqueueIndex
    (hrecord : t.record = {s.record with headIndex := (stamped env s tx).index}) :
    Meets (fun u => Stage env s tx u.record) (setLatestEnqueueIndex (stamped env s tx).queueIndex) t
      (fun _ u => u.record = (advanced env s tx).record) E := by
  rw [stamped_queueIndex]
  refine meets_setHead (fun hnone => ?_) fun q hq => ?_
  · rw [hrecord, SyncService.record, SyncService.record, advanced, hnone]
    rfl
  · have hwritten : ({t with headQueueIndex := some q} : SyncService).record =
        (advanced env s tx).record := by
      show ({t.record with headQueueIndex := some q} : Record) = _
      rw [hrecord, SyncService.record, SyncService.record, advanced, hq]
      rfl
    exact ⟨hwritten ▸ .queued, hwritten⟩

theorem meets_applyTransactionToTip (s : SyncService) (tx : Transaction) :
    Meets (fun t => Stage env s tx t.record) (applyTransactionToTip env tx) s
      (fun _ t => Included env s tx t.record) (fun e t => Rejected env s tx e t.record) := by
  have hcheck : Meets (fun t => Stage env s tx t.record) (checkTimestamp tx) s
      (fun _ t => t = s) (fun e t => Rejected env s tx e t.record) := by
    unfold checkTimestamp
    split
    case isTrue hlacks => exact .fail (.refused hlacks)
    case isFalse => exact .pure rfl
  refine .bind hcheck fun _ t ht => ?_
  rw [ht]
  refine .get_bind ?_
  refine .bind (meets_assignBlockNumber _ _ .before) ?_
  rintro _ t ⟨rfl, ht⟩
  simp only [assignTimestamp_l1BlockNumber]
  refine .bind (meets_storeTimestamp _ _ (ht ▸ .before)) fun _ u hu => ?_
  refine .bind (meets_setLatestIndex (hu.trans ht)) fun _ v hv => ?_
  refine .bind (meets_setLatestEnqueueIndex hv) fun _ w hw => ?_
  refine .bind (meets_includeTransaction hw .failed fun oracle hm => .included ⟨oracle, hm, rfl⟩) ?_
  rintro answer x ⟨hm, hx⟩
  exact meets_finishInclusion hm hx

end L2Geth.Rollup
