import TokamakTitan.Ingestion.Stores

/-! One pass of the loop over a range of L1 blocks. When a state batch never comes without the batch
before it, in case that one's roots are not stored, the pass leaves no gap wherever it ends; when
the provider omits nothing, a pass that completes has stored all events of the range. -/
namespace DataTransportLayer
open BatchSubmitter CoreUtils List
open InitialSegment (Holds Abutting)
open Traced (Program get modify fail forEach Meets)

section Sync

variable {Args ExtraData Parsed : Type}

def answered (query : EventRange → Option (List (Log Args))) : List EventRange → List (Log Args)
  | [] => []
  | range :: rest =>
    match query range with
    | none => []
    | some events => events ++ answered query rest

structure Request (Args : Type) where
  query : EventRange → Option (List (Log Args))
  contractName : ContractName
  fromL1Block : ℤ
  toL1Block : ℤ

variable (net : Network) (rpc : Rpc) (startingL1BlockNumber : ℕ) (request : Request Args)

def Request.ranges : Option (List EventRange) :=
  eventRanges net rpc startingL1BlockNumber request.contractName request.fromL1Block
    request.toL1Block

def Request.received : List (Log Args) :=
  match request.ranges net rpc startingL1BlockNumber with
  | none => []
  | some ranges => answered request.query ranges

def Request.Answered : Prop :=
  ∃ ranges, request.ranges net rpc startingL1BlockNumber = some ranges ∧
    ∀ range ∈ ranges, (request.query range).isSome

variable {net rpc startingL1BlockNumber} {handlers : EventHandlerSet Args ExtraData Parsed}
  {query : EventRange → Option (List (Log Args))} {Inv : TransportDB → Prop}
  {E : IngestionError → TransportDB → Prop} {J : List (Log Args) → TransportDB → Prop}

variable {db : TransportDB} {done : List (Log Args)}

theorem meets_handleEvents {events : List (Log Args)}
    (hbody : ∀ before e after, events = before ++ e :: after → ∀ t, J (done ++ before) t →
      Meets Inv (handleEvent net rpc handlers e) t (fun _ => J (done ++ (before ++ [e]))) E)
    (h : J done db) :
    Meets Inv (forEach (handleEvent net rpc handlers) events) db
      (fun _ => J (done ++ events)) E := by
  let K : List (Log Args) → TransportDB → Prop := fun rest t =>
    ∃ before, events = before ++ rest ∧ J (done ++ before) t
  have hstep : ∀ e rest t, K (e :: rest) t →
      Meets Inv (handleEvent net rpc handlers e) t (fun _ => K rest) E := by
    rintro e rest t ⟨before, hevents, ht⟩
    refine (hbody before e rest hevents t ht).post fun _ u hu => ?_
    exact ⟨before ++ [e], by simp [hevents], hu⟩
  refine (Meets.forEach hstep ⟨[], rfl, by simpa using h⟩).post fun _ t ht => ?_
  obtain ⟨before, hevents, ht⟩ := ht
  rwa [hevents, append_nil]

theorem meets_syncRanges (hrpc : ∀ done t, J done t → E .rpc t) {ranges : List EventRange}
    (hbody : ∀ before e after, answered query ranges = before ++ e :: after →
      ∀ t, J (done ++ before) t →
        Meets Inv (handleEvent net rpc handlers e) t (fun _ => J (done ++ (before ++ [e]))) E)
    (h : J done db) :
    Meets Inv (forEach (syncRange net rpc handlers query) ranges) db
      (fun _ t => J (done ++ answered query ranges) t ∧
        ∀ range ∈ ranges, (query range).isSome) E := by
  induction ranges generalizing done db with
  | nil => exact .pure ⟨by simpa [answered] using h, by simp⟩
  | cons range rest ih =>
    simp only [forEach, syncRange]
    cases hquery : query range with
    | none => exact .bind (B := fun _ _ => False) (.fail (hrpc _ _ h)) fun _ _ => False.elim
    | some events =>
      have hcons : answered query (range :: rest) = events ++ answered query rest := by
        simp [answered, hquery]
      have hfirst : Meets Inv (forEach (handleEvent net rpc handlers) events) db
          (fun _ => J (done ++ events)) E := by
        refine meets_handleEvents (fun before e after hevents t ht => ?_) h
        exact hbody before e (after ++ answered query rest) (by simp [hcons, hevents]) t ht
      refine .bind hfirst fun _ t ht => ?_
      refine (ih (fun before e after hrest u hu => ?_) ht).post fun _ u hu => ?_
      · rw [append_assoc] at hu ⊢
        simpa using hbody (events ++ before) e after (by simp [hcons, hrest]) u hu
      · refine ⟨by simpa [hcons] using hu.1, ?_⟩
        simpa [hquery] using hu.2

theorem meets_syncEvents (hrpc : ∀ done t, J done t → E .rpc t)
    (hbody : ∀ before e after,
      request.received net rpc startingL1BlockNumber = before ++ e :: after → ∀ t, J before t →
        Meets Inv (handleEvent net rpc handlers e) t (fun _ => J (before ++ [e])) E)
    (h : J [] db) :
    Meets Inv (syncEvents net rpc startingL1BlockNumber handlers request.query
        request.contractName request.fromL1Block request.toL1Block) db
      (fun _ t => J (request.received net rpc startingL1BlockNumber) t ∧
        request.Answered net rpc startingL1BlockNumber) E := by
  simp only [syncEvents, Request.received, Request.Answered, Request.ranges] at hbody ⊢
  split
  case h_1 hnone => exact .fail (hrpc _ _ h)
  case h_2 ranges hranges =>
    rw [hranges] at hbody
    refine (meets_syncRanges hrpc (fun before e after hevents t ht => ?_) h).post fun _ t ht => ?_
    · exact hbody before e after hevents t (by simpa using ht)
    · exact ⟨by simpa [hranges] using ht.1, ranges, hranges, ht.2⟩

end Sync

/-- A state batch whose predecessor is stored without its last state root is handled after that
predecessor. -/
def Backed (db : TransportDB) (events : List (Log BatchAppendedArgs)) : Prop :=
  ∀ before e after, events = before ++ e :: after → 0 < e.args.batchIndex →
    (db.store .stateRootBatch (e.args.batchIndex - 1)).isSome → 0 < e.args.prevTotalElements →
      (db.store .stateRoot (e.args.prevTotalElements - 1)).isNone →
        ∃ e' ∈ before, e'.args.batchIndex + 1 = e.args.batchIndex

/-- Every stored state batch has its roots, apart from those that lacked them at the start and have
not been handled since. -/
def Rooted (l1 : L1) (c c' : Key → ℕ) (done : List (Log BatchAppendedArgs)) : Prop :=
  ∀ k e, l1.stateBatches[k]? = some e → k < c' .stateRootBatch →
    e.args.span.1 + e.args.span.2 ≤ c' .stateRoot ∨
      k < c .stateRootBatch ∧ c .stateRoot < e.args.span.1 + e.args.span.2 ∧ e ∉ done

def enqueuedRequest (rpc : Rpc) (fromL1Block toL1Block : ℤ) : Request TransactionEnqueuedArgs :=
  ⟨rpc.transactionEnqueued, .canonicalTransactionChain, fromL1Block, toL1Block⟩

def sequencerRequest (rpc : Rpc) (fromL1Block toL1Block : ℤ) : Request SequencerBatchAppendedArgs :=
  ⟨rpc.sequencerBatchAppended, .canonicalTransactionChain, fromL1Block, toL1Block⟩

def stateRequest (rpc : Rpc) (fromL1Block toL1Block : ℤ) : Request BatchAppendedArgs :=
  ⟨rpc.stateBatchAppended, .stateCommitmentChain, fromL1Block, toL1Block⟩

theorem mem_answered {Args : Type} {query : EventRange → Option (List (Log Args))}
    {ranges : List EventRange} {e : Log Args} (h : e ∈ answered query ranges) :
    ∃ range events, query range = some events ∧ e ∈ events := by
  induction ranges with
  | nil => simp [answered] at h
  | cons range rest ih =>
    simp only [answered] at h
    split at h
    · simp at h
    case h_2 events hquery =>
      rcases mem_append.mp h with h | h
      · exact ⟨range, events, hquery, h⟩
      · exact ih h

theorem mem_received {Args : Type} {net : Network} {rpc : Rpc} {starting : ℕ}
    {request : Request Args} {e : Log Args} (h : e ∈ request.received net rpc starting) :
    ∃ range events, request.query range = some events ∧ e ∈ events := by
  simp only [Request.received] at h
  split at h
  · simp at h
  · exact mem_answered h

variable {net : Network} {l1 : L1} {rpc : Rpc} {starting : ℕ} {synced : SyncedBlocks}
  {c : Key → ℕ} {db : TransportDB} {highest target : ℤ}
  (hl1 : l1.Consecutive net) (hrpc : rpc.Honest l1)

/-- The database is without gaps and has grown only in what the canonical transaction chain
emits. -/
def GrownAhead (net : Network) (l1 : L1) (synced : SyncedBlocks) (c : Key → ℕ)
    (db : TransportDB) : Prop :=
  ∃ c', Ahead c c' ∧ Gapless net l1 synced c' db

theorem GrownAhead.grown (h : GrownAhead net l1 synced c db) : Grown net l1 synced c db := by
  obtain ⟨c', hahead, hdb⟩ := h
  exact ⟨c', hahead.le, hdb⟩

def Sound (net : Network) (l1 : L1) (db : TransportDB) : Prop :=
  ∃ synced c, Gapless net l1 synced c db

theorem Grown.sound (h : Grown net l1 synced c db) : Sound net l1 db := by
  obtain ⟨c', -, hdb⟩ := h
  exact ⟨synced, c', hdb⟩

theorem Sound.setHighestSyncedL1Block (h : Sound net l1 db) (block : ℤ) :
    Sound net l1 (db.setHighestSyncedL1Block block) := by
  obtain ⟨synced, c, hdb⟩ := h
  exact ⟨_, c, rfl, hdb.holds, hdb.latest, hdb.behind⟩

include hl1 hrpc

variable (h : Gapless net l1 synced c db)
include h

theorem meets_syncEnqueued :
    Meets (Grown net l1 synced c)
      (syncEvents net rpc starting handleEventsTransactionEnqueued rpc.transactionEnqueued
        .canonicalTransactionChain highest target) db
      (fun _ => GrownAhead net l1 synced c) (fun _ => Grown net l1 synced c) := by
  refine (meets_syncEvents (J := fun _ => GrownAhead net l1 synced c)
    (enqueuedRequest rpc highest target) (fun _ _ => GrownAhead.grown) ?_
    ⟨c, ⟨le_rfl, rfl, rfl⟩, h⟩).post fun _ _ => And.left
  rintro before e after hreceived t ⟨c', hahead, ht⟩
  obtain ⟨range, events, hquery, he⟩ := mem_received (e := e) (by rw [hreceived]; simp)
  obtain ⟨k, hk⟩ := mem_iff_getElem?.mp (hrpc.transactionEnqueued range events hquery e he)
  refine (meets_handleEnqueued hl1 ht hk fun _ _ => ht.grown hahead.le).mono
    (fun _ => Grown.mono hahead.le) (fun _ u hu => ?_) (fun _ _ => id)
  exact ⟨_, hahead.trans (ahead_raise (by decide)), hu⟩

theorem meets_syncSequencerBatches :
    Meets (Grown net l1 synced c)
      (syncEvents net rpc starting (handleEventsSequencerBatchAppended net.zlib net.ethers)
        rpc.sequencerBatchAppended .canonicalTransactionChain highest target) db
      (fun _ => GrownAhead net l1 synced c) (fun _ => Grown net l1 synced c) := by
  refine (meets_syncEvents (J := fun _ => GrownAhead net l1 synced c)
    (sequencerRequest rpc highest target) (fun _ _ => GrownAhead.grown) ?_
    ⟨c, ⟨le_rfl, rfl, rfl⟩, h⟩).post fun _ _ => And.left
  rintro before e after hreceived t ⟨c', hahead, ht⟩
  obtain ⟨range, events, hquery, he⟩ := mem_received (e := e) (by rw [hreceived]; simp)
  obtain ⟨b, hb, rfl⟩ := hrpc.sequencerBatchAppended range events hquery e he
  obtain ⟨k, hk⟩ := mem_iff_getElem?.mp hb
  refine (meets_handleSequencerBatch hl1 hrpc ht hk fun _ _ => ht.grown hahead.le).mono
    (fun _ => Grown.mono hahead.le) (fun _ u hu => ?_) (fun _ _ => id)
  obtain ⟨c'', hahead', hu, -⟩ := hu
  exact ⟨c'', hahead.trans hahead', hu⟩

omit h in
theorem meets_syncStateBatches {start : TransportDB} {c' : Key → ℕ}
    (hstart : Gapless net l1 synced c start) (hahead : Ahead c c')
    (hbacked : Backed start ((stateRequest rpc highest target).received net rpc starting))
    (h : Gapless net l1 synced c' db) :
    Meets (Grown net l1 synced c)
      (syncEvents net rpc starting (handleEventsStateBatchAppended net.decodeFunctionData)
        rpc.stateBatchAppended .stateCommitmentChain highest target) db
      (fun _ => Grown net l1 synced c) (fun _ => Grown net l1 synced c) := by
  let J : List (Log BatchAppendedArgs) → TransportDB → Prop := fun done t =>
    ∃ c'', c ≤ c'' ∧ Gapless net l1 synced c'' t ∧ Rooted l1 c c'' done
  have hJ : ∀ done t, J done t → Grown net l1 synced c t := by
    rintro done t ⟨c'', hle, ht, -⟩
    exact ht.grown hle
  have hinit : J [] db := by
    refine ⟨c', hahead.le, h, fun k e he hk => ?_⟩
    rw [hahead.stateRootBatch] at hk
    rw [hahead.stateRoot]
    simp only [not_mem_nil, not_false_eq_true, and_true]
    omega
  refine (meets_syncEvents (J := J) (stateRequest rpc highest target) hJ ?_ hinit).post
    fun _ t ht => hJ _ t ht.1
  rintro before e after hreceived t ⟨c'', hle, ht, hrooted⟩
  have hknown : ∀ e' ∈ before ++ e :: after, e' ∈ l1.stateBatches := by
    intro e' he'
    obtain ⟨range, events, hquery, hmem⟩ := mem_received (e := e') (by rwa [hreceived])
    exact hrpc.stateBatchAppended range events hquery e' hmem
  obtain ⟨k, hk⟩ := mem_iff_getElem?.mp (hknown e (by simp))
  have hindex := hl1.stateBatches k e hk
  -- the roots before this batch are stored: the batch before it has them, or was handled
  have hroots : k ≤ c'' .stateRootBatch → e.args.span.1 ≤ c'' .stateRoot := by
    intro hbound
    refine hl1.stateRoots.start_le hk fun j e' hj he' => ?_
    rcases hrooted j e' he' (by omega) with hstored | ⟨hj', hlack, hnot⟩
    · exact hstored
    have hnext : e.args.prevTotalElements = e'.args.span.1 + e'.args.span.2 :=
      hl1.stateRoots.next j e'.args.span e.args.span (by simp [he']) (by simp [← hj, hk])
    have hbatch := (hstart.holds .stateRootBatch).isSome_iff (e.args.batchIndex - 1)
    have hroot := (hstart.holds .stateRoot).isSome_iff (e.args.prevTotalElements - 1)
    obtain ⟨e'', he'', hprev⟩ := hbacked before e after hreceived (by omega)
      (hbatch.mpr (by omega)) (by omega)
      (by
        rw [Option.isNone_iff_eq_none, ← Option.not_isSome_iff_eq_none, hroot]
        omega)
    have hsame : e'' = e' := by
      apply eq_of_position hl1.stateBatches (hknown e'' (by simp [he''])) (mem_of_getElem? he')
      rw [hl1.stateBatches j e' he']
      omega
    rw [hsame] at he''
    exact absurd he'' hnot
  refine (meets_handleStateBatch hl1 hrpc ht hk hroots fun _ _ => ht.grown hle).mono
    (fun _ => Grown.mono hle) (fun _ u hu => ?_) (fun _ _ => id)
  obtain ⟨hbound, hu⟩ := hu
  refine ⟨_, hle.trans (le_raise.trans le_raise), hu, fun j e' he' hj => ?_⟩
  rw [raise_of_ne (by decide), raise_self] at hj
  by_cases hjk : j = k
  · subst hjk
    rw [hk, Option.some.injEq] at he'
    rw [← he', raise_self]
    exact .inl (le_max_right _ _)
  · rcases hrooted j e' he' (by omega) with hstored | ⟨hj', hlack, hnot⟩
    · exact .inl (hstored.trans ((le_raise.trans le_raise) _))
    · refine .inr ⟨hj', hlack, ?_⟩
      have hne : e' ≠ e := by
        rintro rfl
        exact hjk (by rw [← hl1.stateBatches j e' he', hindex])
      simp [hnot, hne]

theorem meets_syncAll
    (hbacked : Backed db ((stateRequest rpc highest target).received net rpc starting)) :
    Meets (Sound net l1) (syncAll net rpc starting highest target) db (fun _ => Sound net l1)
      (fun _ => Sound net l1) := by
  refine .bind ((meets_syncEnqueued hl1 hrpc h).mono (fun _ => Grown.sound) (fun _ _ => id)
    (fun _ _ => Grown.sound)) ?_
  rintro _ t₁ ⟨c₁, hahead₁, h₁⟩
  refine .bind ((meets_syncSequencerBatches hl1 hrpc h₁).mono (fun _ => Grown.sound)
    (fun _ _ => id) (fun _ _ => Grown.sound)) ?_
  rintro _ t₂ ⟨c₂, hahead₂, h₂⟩
  refine .bind ((meets_syncStateBatches hl1 hrpc h (hahead₁.trans hahead₂) hbacked h₂).mono
    (fun _ => Grown.sound) (fun _ _ => Grown.sound) (fun _ _ => Grown.sound)) ?_
  intro _ t₃ h₃
  exact .modify (h₃.setHighestSyncedL1Block target) (h₃.setHighestSyncedL1Block target)

end DataTransportLayer
