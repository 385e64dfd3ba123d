import TokamakTitan.Ingestion.Passes

/-! Passes with a provider that omits no events. All events before the range are stored when a pass
begins, and all up to its end when it completes. -/
namespace DataTransportLayer
open BatchSubmitter CoreUtils List
open Traced (Program get modify fail forEach Meets)

def blockTag (currentL1Block : ℕ) (tag : ℤ) : ℤ :=
  if tag < 0 then max 0 (currentL1Block + tag) else tag

def between {β : Type} (block : β → ℕ) (fromL1Block toL1Block : ℤ) (history : List β) : List β :=
  history.filter fun x => fromL1Block ≤ block x ∧ block x ≤ toL1Block

/-- The queries of a sync return all events of its range, up to the first one that fails. -/
def Request.Whole {β Args : Type} (net : Network) (rpc : Rpc) (starting current : ℕ)
    (history : List β) (block : β → ℕ) (log : β → Log Args) (request : Request Args) : Prop :=
  let all := (between block (blockTag current request.fromL1Block)
    (blockTag current request.toL1Block) history).map log
  request.received net rpc starting <+: all ∧
    (request.Answered net rpc starting → request.received net rpc starting = all)

/-- Each request is answered with all events of its range. -/
structure Rpc.Complete (net : Network) (l1 : L1) (starting : ℕ) (rpc : Rpc) : Prop where
  enqueued : ∀ current highest target, rpc.getBlockNumber = some current →
    (enqueuedRequest rpc highest target).Whole net rpc starting current l1.enqueued
      Log.blockNumber id
  sequencer : ∀ current highest target, rpc.getBlockNumber = some current →
    (sequencerRequest rpc highest target).Whole net rpc starting current l1.sequencerBatches
      (fun b => b.appended.blockNumber) SequencerBatchLogs.appended
  state : ∀ current highest target, rpc.getBlockNumber = some current →
    (stateRequest rpc highest target).Whole net rpc starting current l1.stateBatches
      Log.blockNumber id

def NotMissing (err : IngestionError) : Prop := ∀ name, err ≠ .missingElement name

theorem blockTag_of_nonneg {current : ℕ} {tag : ℤ} (h : 0 ≤ tag) : blockTag current tag = tag :=
  if_neg (by omega)

theorem between_append {β : Type} {block : β → ℕ} {fromL1Block toL1Block : ℤ} {pre post : List β} :
    between block fromL1Block toL1Block (pre ++ post) =
      between block fromL1Block toL1Block pre ++ between block fromL1Block toL1Block post :=
  filter_append ..

variable {synced : SyncedBlocks} {db : TransportDB} {c : Key → ℕ} {net : Network} {rpc : Rpc}
  {l1 : L1}

section Whole

variable {β Args ExtraData Parsed : Type} {starting current : ℕ}
  {handlers : EventHandlerSet Args ExtraData Parsed} {history : List β} {block : β → ℕ}
  {log : β → Log Args}

theorem exists_next {fromL1Block toL1Block : ℤ} {pre post : List β} {e : Log Args}
    {after : List (Log Args)} (hsorted : (pre ++ post).Pairwise fun x y => block x ≤ block y)
    (h : e :: after <+: (between block fromL1Block toL1Block post).map log) :
    ∃ skipped x rest, post = skipped ++ x :: rest ∧ log x = e ∧
      between block fromL1Block toL1Block (skipped ++ [x]) = [x] ∧
      ∀ y ∈ skipped, (block y : ℤ) < fromL1Block := by
  obtain ⟨tail, htail⟩ := h
  obtain ⟨x, xs, hx, rfl, -⟩ := map_eq_cons_iff.mp htail.symm
  obtain ⟨skipped, rest, rfl, hskipped, hin, -⟩ := filter_eq_cons_iff.mp hx
  have hnone : skipped.filter (fun y => decide (fromL1Block ≤ block y ∧ block y ≤ toL1Block)) =
      [] := filter_eq_nil_iff.mpr hskipped
  refine ⟨skipped, x, rest, rfl, rfl, ?_, fun y hy => ?_⟩
  · rw [between, filter_append, hnone, nil_append, filter_singleton, hin]
    rfl
  · have hle : block y ≤ block x := by
      have hpost := (pairwise_append.mp hsorted).2.1
      exact (pairwise_append.mp hpost).2.2 y hy x mem_cons_self
    have hout := hskipped y hy
    simp only [decide_eq_true_eq] at hin hout
    omega

/-- The rule for a sync that omits nothing. `Full` says that the event at a position is stored with
all it carries; a handler may rely on it for earlier events. -/
theorem meets_syncWhole (Full : (Key → ℕ) → ℕ → Prop)
    (hmono : ∀ {c c' k}, c ≤ c' → Full c k → Full c' k)
    (hsorted : history.Pairwise fun x y => block x ≤ block y) (request : Request Args)
    (hfrom : 0 ≤ request.fromL1Block) (hto : 0 ≤ request.toL1Block)
    (hwhole : request.Whole net rpc starting current history block log)
    (hhandle : ∀ k x c' t, history[k]? = some x → Gapless net l1 synced c' t →
      (∀ j < k, Full c' j) →
        Meets (Grown net l1 synced c') (handleEvent net rpc handlers (log x)) t
          (fun _ u => ∃ c'', c' ≤ c'' ∧ Gapless net l1 synced c'' u ∧ Full c'' k)
          (fun err u => Grown net l1 synced c' u ∧ NotMissing err))
    (hbelow : ∀ k x, history[k]? = some x → (block x : ℤ) < request.fromL1Block → Full c k)
    (h : Gapless net l1 synced c db) :
    Meets (Grown net l1 synced c) (syncEvents net rpc starting handlers request.query
        request.contractName request.fromL1Block request.toL1Block) db
      (fun _ t => ∃ c', c ≤ c' ∧ Gapless net l1 synced c' t ∧
        ∀ k x, history[k]? = some x → (block x : ℤ) ≤ request.toL1Block → Full c' k)
      (fun err t => Grown net l1 synced c t ∧ NotMissing err) := by
  simp only [Request.Whole, blockTag_of_nonneg hfrom, blockTag_of_nonneg hto] at hwhole
  -- the events handled so far are those of the range in an initial part of the history
  let J : List (Log Args) → TransportDB → Prop := fun done t => ∃ c', c ≤ c' ∧
    Gapless net l1 synced c' t ∧ ∃ pre post, history = pre ++ post ∧
      done = (between block request.fromL1Block request.toL1Block pre).map log ∧
      ∀ j < pre.length, Full c' j
  have hinit : J [] db := ⟨c, le_rfl, h, [], history, rfl, rfl, by simp⟩
  have hrpc : ∀ done t, J done t → Grown net l1 synced c t ∧ NotMissing .rpc := by
    rintro done t ⟨c', hle, ht, -⟩
    exact ⟨ht.grown hle, fun _ => by simp⟩
  refine (meets_syncEvents (J := J) request hrpc ?_ hinit).post fun _ t ht => ?_
  case _ =>
    rintro before e after hreceived t ⟨c', hle, ht, pre, post, rfl, rfl, hfull⟩
    have hnext : e :: after <+:
        (between block request.fromL1Block request.toL1Block post).map log := by
      have hall := hwhole.1
      rwa [hreceived, between_append, map_append, prefix_append_right_inj] at hall
    obtain ⟨skipped, x, rest, rfl, rfl, hin, hskipped⟩ := exists_next hsorted hnext
    have hx : (pre ++ (skipped ++ x :: rest))[pre.length + skipped.length]? = some x := by
      rw [getElem?_append_right (by omega), getElem?_append_right (by omega)]
      simp
    have hearlier : ∀ j < pre.length + skipped.length, Full c' j := by
      intro j hj
      by_cases hpre : j < pre.length
      · exact hfull j hpre
      · have hlt : j - pre.length < skipped.length := by omega
        have hy : (pre ++ (skipped ++ x :: rest))[j]? = some skipped[j - pre.length] := by
          rw [getElem?_append_right (by omega), getElem?_append_left hlt, getElem?_eq_getElem hlt]
        exact hmono hle (hbelow j _ hy (hskipped _ (getElem_mem hlt)))
    refine (hhandle _ x c' t hx ht hearlier).mono (fun _ => Grown.mono hle) (fun _ u hu => ?_)
      (fun _ _ he => ⟨he.1.mono hle, he.2⟩)
    obtain ⟨c'', hle', hu, hnew⟩ := hu
    refine ⟨c'', hle.trans hle', hu, pre ++ (skipped ++ [x]), rest, by simp, ?_, fun j hj => ?_⟩
    · rw [between_append, hin, map_append]
      rfl
    · simp only [length_append, length_singleton] at hj
      by_cases hlast : j = pre.length + skipped.length
      · rwa [hlast]
      · exact hmono hle' (hearlier j (by omega))
  case _ =>
    obtain ⟨⟨c', hle, ht, pre, post, rfl, hdone, hfull⟩, hanswered⟩ := ht
    refine ⟨c', hle, ht, fun k x hx hxto => ?_⟩
    have hrest : between block request.fromL1Block request.toL1Block post = [] := by
      rw [hwhole.2 hanswered, between_append, map_append] at hdone
      simpa using hdone
    by_cases hpre : k < pre.length
    · exact hfull k hpre
    · rw [getElem?_append_right (by omega)] at hx
      have hout := filter_eq_nil_iff.mp hrest x (mem_of_getElem? hx)
      simp only [decide_eq_true_eq] at hout
      exact hmono hle (hbelow k x (by rwa [getElem?_append_right (by omega)]) (by omega))

end Whole

section Pass

variable {starting current : ℕ} {highest target : ℤ}

def StateFull (l1 : L1) (c : Key → ℕ) (k : ℕ) : Prop :=
  k < c .stateRootBatch ∧ ∀ e, l1.stateBatches[k]? = some e →
    e.args.span.1 + e.args.span.2 ≤ c .stateRoot

structure FullUpTo (l1 : L1) (c : Key → ℕ) (limit : ℤ) : Prop where
  enqueued : ∀ k (e : Log TransactionEnqueuedArgs), l1.enqueued[k]? = some e →
    (e.blockNumber : ℤ) ≤ limit → k < c .enqueue
  sequencer : ∀ k (b : SequencerBatchLogs), l1.sequencerBatches[k]? = some b →
    (b.appended.blockNumber : ℤ) ≤ limit → k < c .transactionBatch
  state : ∀ k (e : Log BatchAppendedArgs), l1.stateBatches[k]? = some e →
    (e.blockNumber : ℤ) ≤ limit → StateFull l1 c k

def SyncedTo (net : Network) (l1 : L1) (synced : SyncedBlocks) (target : ℤ) (db : TransportDB) :
    Prop :=
  ∃ c, FullUpTo l1 c target ∧
    Gapless net l1 {synced with highestSyncedL1Block := some target} c db

variable {c' : Key → ℕ} {k : ℕ}

theorem StateFull.mono (hle : c ≤ c') (h : StateFull l1 c k) : StateFull l1 c' k :=
  ⟨h.1.trans_le (hle _), fun e he => (h.2 e he).trans (hle _)⟩

theorem FullUpTo.mono {limit limit' : ℤ} (h : FullUpTo l1 c limit) (hle : c ≤ c')
    (hlimit : limit' ≤ limit) : FullUpTo l1 c' limit' :=
  ⟨fun k e he hb => (h.enqueued k e he (hb.trans hlimit)).trans_le (hle _),
    fun k b hb hblock => (h.sequencer k b hb (hblock.trans hlimit)).trans_le (hle _),
    fun k e he hb => (h.state k e he (hb.trans hlimit)).mono hle⟩

theorem grown_and_notMissing (h : Gapless net l1 synced c db) {err : IngestionError} {key : Key}
    (hk : k ≤ c key) (herr : ∀ name, err = .missingElement name → ¬k ≤ c key) :
    Grown net l1 synced c db ∧ NotMissing err :=
  ⟨h.grown le_rfl, fun name hname => herr name hname hk⟩

variable (hl1 : l1.Consecutive net) (hrpc : rpc.Honest l1)
  (hwhole : rpc.Complete net l1 starting) (hcurrent : rpc.getBlockNumber = some current)
  (hhighest : 0 ≤ highest) (htarget : 0 ≤ target)
include hl1 hwhole hcurrent hhighest htarget

variable (hbelow : FullUpTo l1 c (highest - 1))
include hbelow

theorem meets_syncWholeEnqueued (h : Gapless net l1 synced c db) :
    Meets (Grown net l1 synced c)
      (syncEvents net rpc starting handleEventsTransactionEnqueued rpc.transactionEnqueued
        .canonicalTransactionChain highest target) db
      (fun _ t => ∃ c', c ≤ c' ∧ Gapless net l1 synced c' t ∧
        ∀ k (e : Log TransactionEnqueuedArgs), l1.enqueued[k]? = some e →
          (e.blockNumber : ℤ) ≤ target → k < c' .enqueue)
      (fun err t => Grown net l1 synced c t ∧ NotMissing err) := by
  apply meets_syncWhole (fun c k => k < c .enqueue) (fun hle hk => hk.trans_le (hle _))
    hl1.enqueuedOrder (enqueuedRequest rpc highest target) hhighest htarget
    (hwhole.enqueued current highest target hcurrent) _ _ h
  · intro k e c' t he ht hearlier
    have hk := le_of_forall_lt hearlier
    exact (meets_handleEnqueued hl1 ht he fun err => grown_and_notMissing ht hk).post
      fun _ u hu => ⟨_, le_raise, hu, by simp⟩
  · intro k e he hblock
    exact hbelow.enqueued k e he (Int.le_sub_one_of_lt hblock)

include hrpc

theorem meets_syncWholeSequencer (h : Gapless net l1 synced c db) :
    Meets (Grown net l1 synced c)
      (syncEvents net rpc starting (handleEventsSequencerBatchAppended net.zlib net.ethers)
        rpc.sequencerBatchAppended .canonicalTransactionChain highest target) db
      (fun _ t => ∃ c', c ≤ c' ∧ Gapless net l1 synced c' t ∧
        ∀ k (b : SequencerBatchLogs), l1.sequencerBatches[k]? = some b →
          (b.appended.blockNumber : ℤ) ≤ target → k < c' .transactionBatch)
      (fun err t => Grown net l1 synced c t ∧ NotMissing err) := by
  apply meets_syncWhole (fun c k => k < c .transactionBatch) (fun hle hk => hk.trans_le (hle _))
    hl1.sequencerOrder (sequencerRequest rpc highest target) hhighest htarget
    (hwhole.sequencer current highest target hcurrent) _ _ h
  · intro k b c' t hb ht hearlier
    have hk := le_of_forall_lt hearlier
    refine (meets_handleSequencerBatch hl1 hrpc ht hb fun err =>
      grown_and_notMissing ht hk).post fun _ u hu => ?_
    obtain ⟨c'', hahead, hu, hnew⟩ := hu
    exact ⟨c'', hahead.le, hu, hnew⟩
  · intro k b hb hblock
    exact hbelow.sequencer k b hb (Int.le_sub_one_of_lt hblock)

theorem meets_syncWholeState (h : Gapless net l1 synced c db) :
    Meets (Grown net l1 synced c)
      (syncEvents net rpc starting (handleEventsStateBatchAppended net.decodeFunctionData)
        rpc.stateBatchAppended .stateCommitmentChain highest target) db
      (fun _ t => ∃ c', c ≤ c' ∧ Gapless net l1 synced c' t ∧
        ∀ k (e : Log BatchAppendedArgs), l1.stateBatches[k]? = some e →
          (e.blockNumber : ℤ) ≤ target → StateFull l1 c' k)
      (fun err t => Grown net l1 synced c t ∧ NotMissing err) := by
  apply meets_syncWhole (StateFull l1) (fun hle hk => hk.mono hle)
    hl1.stateOrder (stateRequest rpc highest target) hhighest htarget
    (hwhole.state current highest target hcurrent) _ _ h
  · intro k e c' t he ht hearlier
    have hk := le_of_forall_lt fun j hj => (hearlier j hj).1
    have hroots : e.args.span.1 ≤ c' .stateRoot := by
      refine hl1.stateRoots.start_le he fun j e' hj he' => ?_
      exact (hearlier j (by omega)).2 e' he'
    refine (meets_handleStateBatch hl1 hrpc ht he (fun _ => hroots) fun err =>
      grown_and_notMissing ht hk).post fun _ u hu => ?_
    refine ⟨_, le_raise.trans le_raise, hu.2, ?_, fun e' he' => ?_⟩
    · rw [raise_of_ne (by decide), raise_self]
      omega
    · rw [he, Option.some.injEq] at he'
      rw [← he', raise_self]
      exact le_max_right _ _
  · intro k e he hblock
    exact hbelow.state k e he (Int.le_sub_one_of_lt hblock)

theorem meets_syncWholeAll (h : Gapless net l1 synced c db) :
    Meets (fun t => Grown net l1 synced c t ∨ SyncedTo net l1 synced target t)
      (syncAll net rpc starting highest target) db
      (fun _ => SyncedTo net l1 synced target)
      (fun err t => Grown net l1 synced c t ∧ NotMissing err) := by
  refine .bind ((meets_syncWholeEnqueued hl1 hwhole hcurrent hhighest htarget hbelow h).mono
    (fun _ => .inl) (fun _ _ => id) (fun _ _ => id)) ?_
  rintro _ t₁ ⟨c₁, hle₁, h₁, henqueued⟩
  refine .bind ((meets_syncWholeSequencer hl1 hrpc hwhole hcurrent hhighest htarget
    (hbelow.mono hle₁ le_rfl) h₁).mono (fun _ ht => .inl (ht.mono hle₁)) (fun _ _ => id)
    (fun _ _ ht => ⟨ht.1.mono hle₁, ht.2⟩)) ?_
  rintro _ t₂ ⟨c₂, hle₂, h₂, hsequencer⟩
  have hle := hle₁.trans hle₂
  refine .bind ((meets_syncWholeState hl1 hrpc hwhole hcurrent hhighest htarget
    (hbelow.mono hle le_rfl) h₂).mono (fun _ ht => .inl (ht.mono hle)) (fun _ _ => id)
    (fun _ _ ht => ⟨ht.1.mono hle, ht.2⟩)) ?_
  rintro _ t₃ ⟨c₃, hle₃, h₃, hstate⟩
  have hfull : FullUpTo l1 c₃ target :=
    ⟨fun k e he hb => (henqueued k e he hb).trans_le ((hle₂.trans hle₃) _),
      fun k b hb hblock => (hsequencer k b hb hblock).trans_le (hle₃ _), hstate⟩
  have hset : Gapless net l1 {synced with highestSyncedL1Block := some target} c₃
      (t₃.setHighestSyncedL1Block target) :=
    ⟨by rw [← h₃.synced]; rfl, h₃.holds, h₃.latest, h₃.behind⟩
  exact .modify (.inr ⟨c₃, hfull, hset⟩) ⟨c₃, hfull, hset⟩

end Pass

variable (net : Network) (l1 : L1) (current : ℕ)

/-- A provider that answers everything, while the address manager stays as it is. -/
def L1.provider : Rpc where
  getTransaction := fun hash => some (l1.transaction hash)
  getBlock := fun number => some ⟨number, l1.timestamp number⟩
  transactionBatchAppended := fun number =>
    some ((l1.sequencerBatches.map SequencerBatchLogs.batch).filter (·.blockNumber = number))
  getBlockNumber := some current
  addressSet := fun _ _ _ => some []
  getAddress := fun _ => some addressZero
  transactionEnqueued := fun range => some (between Log.blockNumber
    (blockTag current range.fromBlock) (blockTag current range.toBlock) l1.enqueued)
  sequencerBatchAppended := fun range => some ((between (fun b => b.appended.blockNumber)
    (blockTag current range.fromBlock) (blockTag current range.toBlock)
      l1.sequencerBatches).map SequencerBatchLogs.appended)
  stateBatchAppended := fun range => some (between Log.blockNumber
    (blockTag current range.fromBlock) (blockTag current range.toBlock) l1.stateBatches)
  findStartingL1BlockNumber := none

variable {l1 current}

theorem provider_honest : (l1.provider current).Honest l1 := by
  constructor
  case transactionEnqueued =>
    intro range events h e he
    obtain rfl := Option.some.inj h
    exact (mem_filter.mp he).1
  case sequencerBatchAppended =>
    intro range events h e he
    obtain rfl := Option.some.inj h
    obtain ⟨b, hb, rfl⟩ := mem_map.mp he
    exact ⟨b, (mem_filter.mp hb).1, rfl⟩
  case stateBatchAppended =>
    intro range events h e he
    obtain rfl := Option.some.inj h
    exact (mem_filter.mp he).1
  case getTransaction => exact fun hash tx h => (Option.some.inj h).symm
  case getBlock => exact fun number block h => (Option.some.inj h).symm
  case transactionBatchAppended =>
    intro number events h e he
    obtain rfl := Option.some.inj h
    exact mem_map.mp (mem_filter.mp he).1

theorem provider_eventRanges (starting : ℕ) (name : ContractName) (highest target : ℤ) :
    eventRanges net (l1.provider current) starting name highest target =
      some [⟨addressZero, highest, target⟩] := by
  by_cases hmainnet : net.l2ChainId = 10
  · simp [eventRanges, L1.provider, hmainnet]
  · simp [eventRanges, L1.provider, hmainnet, addressRanges, getContractAddressAtBlock]

theorem provider_whole {β Args : Type} (starting : ℕ) {request : Request Args}
    {history : List β} {block : β → ℕ} {log : β → Log Args}
    (h : request.query ⟨addressZero, request.fromL1Block, request.toL1Block⟩ =
      some ((between block (blockTag current request.fromL1Block)
        (blockTag current request.toL1Block) history).map log)) :
    request.Whole net (l1.provider current) starting current history block log := by
  have hreceived : request.received net (l1.provider current) starting =
      (between block (blockTag current request.fromL1Block)
        (blockTag current request.toL1Block) history).map log := by
    simp [Request.received, Request.ranges, provider_eventRanges, answered, h]
  exact ⟨hreceived ▸ prefix_rfl, fun _ => hreceived⟩

theorem provider_complete (starting : ℕ) : (l1.provider current).Complete net l1 starting := by
  constructor
  case enqueued =>
    intro n highest target hn
    obtain rfl := Option.some.inj hn
    exact provider_whole net starting (by rw [map_id]; rfl)
  case sequencer =>
    intro n highest target hn
    obtain rfl := Option.some.inj hn
    exact provider_whole net starting rfl
  case state =>
    intro n highest target hn
    obtain rfl := Option.some.inj hn
    exact provider_whole net starting (by rw [map_id]; rfl)

end DataTransportLayer
