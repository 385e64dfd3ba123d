import TokamakTitan.Ingestion.History

/-! What the handlers do to a database without gaps. It is described by the number of entries of
each kind; a handler raises the numbers of its kinds, and every write on the way leaves no gap. -/
namespace DataTransportLayer
open BatchSubmitter CoreUtils Function List
open InitialSegment (Holds Abutting)
open Traced (Program get modify fail forEach Meets)

/-- The transactions and queue indexes of a batch are stored before the batch. -/
def Behind (l1 : L1) (c : Key → ℕ) : Prop :=
  ∀ k b, l1.sequencerBatches[k]? = some b → k < c .transactionBatch →
    b.batch.args.span.1 + b.batch.args.span.2 ≤ c .transaction ∧
      b.appended.args.span.1 + b.appended.args.span.2 ≤ c .enqueueCtcIndex

structure Gapless (net : Network) (l1 : L1) (synced : SyncedBlocks) (c : Key → ℕ)
    (db : TransportDB) : Prop where
  synced : db.toSyncedBlocks = synced
  holds : ∀ key, Holds (l1.Determined net key) (c key) (db.store key)
  latest : ∀ key i, db.latest key = some i → i < c key
  behind : Behind l1 c

def Grown (net : Network) (l1 : L1) (synced : SyncedBlocks) (c : Key → ℕ) (db : TransportDB) :
    Prop :=
  ∃ c', c ≤ c' ∧ Gapless net l1 synced c' db

def raise (c : Key → ℕ) (key : Key) (n : ℕ) : Key → ℕ := Function.update c key (max (c key) n)

structure Ahead (c c' : Key → ℕ) : Prop where
  le : c ≤ c'
  stateRoot : c' .stateRoot = c .stateRoot
  stateRootBatch : c' .stateRootBatch = c .stateRootBatch

variable {b : SequencerBatchLogs}

section Raise

variable {c c' : Key → ℕ} {key other : Key} {m n : ℕ}

@[simp] theorem raise_self : raise c key n key = max (c key) n := by simp [raise]

theorem raise_of_ne (h : other ≠ key) : raise c key n other = c other :=
  update_of_ne h _ _

theorem le_raise : c ≤ raise c key n := by
  intro other
  by_cases h : other = key
  · subst h
    simp
  · rw [raise_of_ne h]

theorem raise_eq_self (h : n ≤ c key) : raise c key n = c := by
  simp [raise, max_eq_left h]

theorem raise_raise (h : m ≤ n) : raise (raise c key m) key n = raise c key n := by
  simp [raise, max_assoc, max_eq_right h]

theorem Ahead.trans {c'' : Key → ℕ} (h : Ahead c c') (h' : Ahead c' c'') : Ahead c c'' :=
  ⟨h.le.trans h'.le, h'.stateRoot.trans h.stateRoot, h'.stateRootBatch.trans h.stateRootBatch⟩

theorem ahead_raise (h : key ≠ .stateRoot ∧ key ≠ .stateRootBatch) : Ahead c (raise c key n) :=
  ⟨le_raise, raise_of_ne h.1.symm, raise_of_ne h.2.symm⟩

variable {l1 : L1}

theorem Behind.mono (h : Behind l1 c) (hle : c ≤ c')
    (hbatch : c' .transactionBatch = c .transactionBatch) : Behind l1 c' := by
  intro k b hb hk
  rw [hbatch] at hk
  obtain ⟨htransactions, hqueue⟩ := h k b hb hk
  exact ⟨htransactions.trans (hle _), hqueue.trans (hle _)⟩

theorem Behind.raise (h : Behind l1 c) (hne : key ≠ .transactionBatch) :
    Behind l1 (raise c key n) :=
  h.mono le_raise (raise_of_ne hne.symm)

theorem Behind.raise_batch {k : ℕ} (h : Behind l1 c) (hb : l1.sequencerBatches[k]? = some b)
    (hk : k ≤ c .transactionBatch)
    (htransactions : b.batch.args.span.1 + b.batch.args.span.2 ≤ c .transaction)
    (hqueue : b.appended.args.span.1 + b.appended.args.span.2 ≤ c .enqueueCtcIndex) :
    Behind l1 (DataTransportLayer.raise c .transactionBatch (k + 1)) := by
  intro j b' hb' hj
  rw [raise_self] at hj
  rw [raise_of_ne (by decide), raise_of_ne (by decide)]
  by_cases hjk : j = k
  · subst hjk
    rw [hb, Option.some.injEq] at hb'
    rw [← hb']
    exact ⟨htransactions, hqueue⟩
  · exact h j b' hb' (by omega)

end Raise

variable {net : Network} {l1 : L1} {synced : SyncedBlocks} {c c' : Key → ℕ} {db : TransportDB}

theorem Grown.mono (hle : c ≤ c') (h : Grown net l1 synced c' db) : Grown net l1 synced c db := by
  obtain ⟨c'', hle', hdb⟩ := h
  exact ⟨c'', hle.trans hle', hdb⟩

theorem Gapless.grown (h : Gapless net l1 synced c' db) (hle : c ≤ c') :
    Grown net l1 synced c db := ⟨c', hle, h⟩

theorem gapless_empty : Gapless net l1 ⟨none, none⟩ 0 .empty := by
  constructor
  case synced => rfl
  case holds => exact fun _ => InitialSegment.holds_empty
  case latest => simp [TransportDB.empty]
  case behind => simp [Behind]

section

variable (h : Gapless net l1 synced c db)
include h

variable {a : ℕ}

theorem Gapless.put (key : Key) (entries : List (ℕ × key.Value))
    (hindex : entries.map Prod.fst = range' a entries.length)
    (hright : ∀ entry ∈ entries, l1.Determined net key entry.1 entry.2) (ha : a ≤ c key)
    (hbehind : Behind l1 (raise c key (a + entries.length))) :
    Gapless net l1 synced (raise c key (a + entries.length)) (db.put key entries) := by
  constructor
  case synced => exact h.synced
  case holds =>
    intro other
    by_cases hother : other = key
    · subst hother
      rw [raise_self, TransportDB.put]
      simp only [update_self]
      exact (h.holds other).putAll hindex hright ha
    · rw [raise_of_ne hother, TransportDB.put]
      simp only [update_of_ne hother]
      exact h.holds other
  case latest => exact fun other i hi => (h.latest other i hi).trans_le (le_raise other)
  case behind => exact hbehind

variable {key : Key} {i : ℕ}

theorem Gapless.putLatest (hi : i < c key) :
    Gapless net l1 synced c (db.putLatestEntryIndex key i) := by
  refine ⟨h.synced, h.holds, fun other j hj => ?_, h.behind⟩
  by_cases hother : other = key
  · subst hother
    simp only [TransportDB.putLatestEntryIndex, update_self, Option.some.injEq] at hj
    rwa [← hj]
  · simp only [TransportDB.putLatestEntryIndex, update_of_ne hother] at hj
    exact h.latest other j hj

variable {E : IngestionError → TransportDB → Prop}

theorem meets_putLatestEntry [Indexed key.Value] {entry : key.Value}
    (hi : Indexed.index entry < c key) :
    Meets (Grown net l1 synced c) (putLatestEntry key entry) db
      (fun _ t => Gapless net l1 synced c t) E := by
  apply Meets.get_bind
  split
  · have hput := h.putLatest hi
    exact .modify (hput.grown le_rfl) hput
  · exact .pure h

omit h in
theorem meets_putEntries (key : Key) [Indexed key.Value] {entries : List key.Value}
    (h : Gapless net l1 synced c db) (hindex : entries.map Indexed.index = range' a entries.length)
    (hright : ∀ entry ∈ entries, l1.Determined net key (Indexed.index entry) entry) (ha : a ≤ c key)
    (hbehind : Behind l1 (raise c key (a + entries.length))) :
    Meets (Grown net l1 synced c) (putEntries key entries) db
      (fun _ t => Gapless net l1 synced (raise c key (a + entries.length)) t) E := by
  cases hlast : entries.getLast? with
  | none =>
    obtain rfl := getLast?_eq_none_iff.mp hlast
    refine .pure ?_
    rwa [length_nil, Nat.add_zero, raise_eq_self ha]
  | some last =>
    simp only [putEntries, hlast]
    have hput : Gapless net l1 synced (raise c key (a + entries.length))
        (db.put key (entries.map fun entry => (Indexed.index entry, entry))) := by
      have hput' := h.put key (entries.map fun entry => (Indexed.index entry, entry))
        (a := a) (by simpa [comp_def] using hindex) (by simpa using hright) ha
        (by simpa using hbehind)
      simpa using hput'
    have hmem := InitialSegment.index_mem_of_numbered hindex (mem_of_getLast? hlast)
    have hi : Indexed.index last < raise c key (a + entries.length) key := by
      rw [raise_self]
      omega
    refine .bind (B := fun _ t => Gapless net l1 synced (raise c key (a + entries.length)) t)
      (.modify (hput.grown le_raise) hput) fun _ t ht => ?_
    exact (meets_putLatestEntry ht hi).mono (fun _ => Grown.mono le_raise) (fun _ _ => id)
      (fun _ _ => id)

omit h in
theorem meets_putEntry (key : Key) [Indexed key.Value] {entry : key.Value} {k : ℕ}
    (h : Gapless net l1 synced c db) (hindex : Indexed.index entry = k)
    (hright : l1.Determined net key k entry) (hk : k ≤ c key)
    (hbehind : Behind l1 (raise c key (k + 1))) :
    Meets (Grown net l1 synced c) (putEntries key [entry]) db
      (fun _ t => Gapless net l1 synced (raise c key (k + 1)) t) E := by
  have hnumbered : [entry].map Indexed.index = range' k [entry].length := by simp [hindex]
  have hdetermined : ∀ e ∈ [entry], l1.Determined net key (Indexed.index e) e := by
    simpa [hindex] using hright
  exact meets_putEntries key h hnumbered hdetermined hk hbehind

variable {Inv : TransportDB → Prop}

theorem meets_requirePrevious {name : EventName} (hE : ¬i ≤ c key → E (.missingElement name) db) :
    Meets Inv (requirePrevious key i name) db (fun _ t => t = db ∧ i ≤ c key) E := by
  have hle := (h.holds key).le_iff (a := i)
  apply Meets.get_bind
  split
  case isTrue hmissing => exact .fail (hE (by rwa [hle, not_not]))
  case isFalse hpresent => exact .pure ⟨rfl, hle.mpr hpresent⟩

theorem meets_requirePreviousTransaction {entries : List TransactionEntry}
    (hindex : entries.map TransactionEntry.index = range' a entries.length)
    (ha : a ≤ c .transaction) :
    Meets Inv (SequencerBatchAppended.requirePreviousTransaction entries) db
      (fun _ t => t = db) E := by
  cases entries with
  | nil => exact .pure rfl
  | cons =>
    simp only [map_cons, length_cons, range'_succ, cons.injEq] at hindex
    obtain ⟨rfl, -⟩ := hindex
    exact (meets_requirePrevious h (fun hna => absurd ha hna)).post fun _ _ ht => ht.1

end

variable {Args ExtraData Parsed : Type} {handlers : EventHandlerSet Args ExtraData Parsed}
  {rpc : Rpc}

theorem meets_handleEvent {Inv : TransportDB → Prop} {A : Unit → TransportDB → Prop}
    {event : Log Args} (determined : Except ParseError Parsed)
    (hextra : ∀ x, handlers.getExtraData event rpc.toProvider = some x →
      handlers.parseEvent event x net.l2ChainId = determined)
    (hrpc : E .rpc db) (hparse : ∀ e, E (.parse e) db)
    (hstore : ∀ p, determined = .ok p → Meets Inv (handlers.storeEvent p) db A E) :
    Meets Inv (handleEvent net rpc handlers event) db A E := by
  simp only [handleEvent]
  split
  · exact .fail hrpc
  case h_2 x hx =>
    rw [hextra x hx]
    split
    · exact .fail (hparse _)
    case h_2 p => exact hstore p rfl

variable (hl1 : l1.Consecutive net) (hrpc : rpc.Honest l1) {k : ℕ}
include hl1

theorem meets_handleEnqueued {e : Log TransactionEnqueuedArgs}
    (h : Gapless net l1 synced c db) (he : l1.enqueued[k]? = some e)
    (hE : ∀ err, (∀ name, err = .missingElement name → ¬k ≤ c .enqueue) → E err db) :
    Meets (Grown net l1 synced c) (handleEvent net rpc handleEventsTransactionEnqueued e) db
      (fun _ t => Gapless net l1 synced (raise c .enqueue (k + 1)) t) E := by
  apply meets_handleEvent (TransactionEnqueued.parseEvent e) (fun _ _ => rfl)
    (hE _ (by simp)) (fun _ => hE _ (by simp))
  intro entry hentry
  have hindex : entry.index = k := (enqueued_index hentry).trans (hl1.enqueued k e he)
  refine .bind (meets_requirePrevious h fun hk => hE _ fun _ _ => hindex ▸ hk) ?_
  rintro _ t ⟨rfl, hk⟩
  rw [hindex] at hk
  exact meets_putEntry .enqueue h hindex ⟨hindex, e, mem_of_getElem? he, hentry⟩ hk
    (h.behind.raise (by decide))

theorem meets_storeQueueIndexes (hb : b ∈ l1.sequencerBatches) {p : ParsedEvent}
    (hp : l1.sequencerBatch net b = .ok p) (h : Gapless net l1 synced c db)
    (hstart : b.appended.args.span.1 ≤ c .enqueueCtcIndex) :
    Meets (Grown net l1 synced c)
      (forEach SequencerBatchAppended.storeQueueIndex p.transactionEntries) db
      (fun _ t => Gapless net l1 synced (raise c .enqueueCtcIndex
        (b.appended.args.span.1 + b.appended.args.span.2)) t) E := by
  have hnumbered := (parseEvent_numbered hp).2
  have hsize := (hl1.sequencerSize b hb p hp).2
  -- `n` queue indexes of the batch are stored when `rest` is still to come
  let J : List TransactionEntry → TransportDB → Prop := fun rest t => ∃ n,
    n + (queueIndexes rest).length = b.appended.args.span.1 + b.appended.args.span.2 ∧
    (queueIndexes rest).map Prod.fst = range' n (queueIndexes rest).length ∧
    (∀ entry ∈ rest, entry ∈ p.transactionEntries) ∧
    Gapless net l1 synced (raise c .enqueueCtcIndex n) t
  have hinit : J p.transactionEntries db := by
    refine ⟨b.appended.args.span.1, by rw [hsize]; rfl, hnumbered.queue, fun _ => id, ?_⟩
    rwa [raise_eq_self hstart]
  have hbody : ∀ entry rest t, J (entry :: rest) t →
      Meets (Grown net l1 synced c) (SequencerBatchAppended.storeQueueIndex entry) t
        (fun _ => J rest) E := by
    rintro entry rest t ⟨n, hn, hindex, hmem, ht⟩
    have hentry := hmem entry mem_cons_self
    have hrest : ∀ e ∈ rest, e ∈ p.transactionEntries :=
      fun e he => hmem e (mem_cons_of_mem _ he)
    simp only [SequencerBatchAppended.storeQueueIndex]
    split
    case h_1 horigin =>
      have hnone : queueIndexOf entry = none := by simp [queueIndexOf, horigin]
      have hcons : queueIndexes (entry :: rest) = queueIndexes rest := by
        simp [queueIndexes, hnone]
      rw [hcons] at hn hindex
      exact .pure ⟨n, hn, hindex, hrest, ht⟩
    case h_2 horigin hqueue =>
      have := hnumbered.queued entry hentry horigin
      simp [hqueue] at this
    case h_3 q horigin hqueue =>
      have hsome : queueIndexOf entry = some (q, entry.index) := by
        simp [queueIndexOf, horigin, hqueue]
      have hcons : queueIndexes (entry :: rest) = (q, entry.index) :: queueIndexes rest := by
        simp [queueIndexes, hsome]
      simp only [hcons, length_cons, map_cons, range'_succ, cons.injEq] at hn hindex
      obtain ⟨rfl, hindex⟩ := hindex
      have hdetermined : l1.Determined net .enqueueCtcIndex q entry.index :=
        ⟨b, hb, p, hp, mem_filterMap.mpr ⟨entry, hentry, hsome⟩⟩
      have hput := ht.put .enqueueCtcIndex [(q, entry.index)] (a := q)
        (by simp) (by simpa using hdetermined) (by simp) (ht.behind.raise (by decide))
      rw [length_singleton, raise_raise (Nat.le_succ q)] at hput
      exact .modify (hput.grown le_raise) ⟨q + 1, by omega, hindex, hrest, hput⟩
  refine (Meets.forEach hbody hinit).post fun _ t ht => ?_
  obtain ⟨n, hn, -, -, ht⟩ := ht
  have hn : n = b.appended.args.span.1 + b.appended.args.span.2 := hn
  rwa [← hn]

theorem starts_within (hbehind : Behind l1 c) (hb : l1.sequencerBatches[k]? = some b)
    (hk : k ≤ c .transactionBatch) :
    b.batch.args.span.1 ≤ c .transaction ∧ b.appended.args.span.1 ≤ c .enqueueCtcIndex := by
  constructor
  · refine hl1.transactions.start_le hb fun j b' hj hb' => ?_
    exact (hbehind j b' hb' (by omega)).1
  · refine hl1.queue.start_le hb fun j b' hj hb' => ?_
    exact (hbehind j b' hb' (by omega)).2

include hrpc

theorem meets_handleSequencerBatch (h : Gapless net l1 synced c db)
    (hb : l1.sequencerBatches[k]? = some b)
    (hE : ∀ err, (∀ name, err = .missingElement name → ¬k ≤ c .transactionBatch) → E err db) :
    Meets (Grown net l1 synced c)
      (handleEvent net rpc (handleEventsSequencerBatchAppended net.zlib net.ethers) b.appended) db
      (fun _ t => ∃ c', Ahead c c' ∧ Gapless net l1 synced c' t ∧ k < c' .transactionBatch) E := by
  have hmem := mem_of_getElem? hb
  apply meets_handleEvent (l1.sequencerBatch net b)
    (fun x hx => by rw [sequencerExtraData_of_honest hl1 hrpc hmem hx]; rfl)
    (hE _ (by simp)) (fun _ => hE _ (by simp))
  intro p hp
  obtain ⟨hindex, hnumbered⟩ := parseEvent_numbered hp
  replace hindex : p.transactionBatchEntry.index = k :=
    hindex.trans (hl1.sequencerBatches k b hb)
  obtain ⟨hsize, -⟩ := hl1.sequencerSize b hmem p hp
  refine .bind (meets_requirePrevious h fun hk => hE _ fun _ _ => hindex ▸ hk) ?_
  rintro _ t ⟨rfl, hk⟩
  rw [hindex] at hk
  obtain ⟨htransaction, hqueue⟩ := starts_within hl1 h.behind hb hk
  refine .bind (meets_requirePreviousTransaction h hnumbered.transactions htransaction) ?_
  rintro _ t rfl
  refine .bind (meets_putEntries .transaction h hnumbered.transactions
    (fun entry hentry => ⟨rfl, b, hmem, p, hp, hentry⟩) htransaction
    (h.behind.raise (by decide))) ?_
  intro _ t₁ h₁
  have hends : b.batch.args.span.1 + b.batch.args.span.2 =
      (l1.sequencerExtraData b).prevTotalElements + p.transactionEntries.length := by
    rw [hsize]
    rfl
  rw [← hends] at h₁
  have hstored := meets_storeQueueIndexes (E := E) hl1 hmem hp h₁ (by rwa [raise_of_ne (by decide)])
  refine .bind (hstored.mono (fun _ => Grown.mono le_raise) (fun _ _ => id) (fun _ _ => id)) ?_
  intro _ t₂ h₂
  have hk₂ : ∀ m n, k ≤ raise (raise c .transaction m) .enqueueCtcIndex n .transactionBatch := by
    intro m n
    rwa [raise_of_ne (by decide), raise_of_ne (by decide)]
  have hbatch := meets_putEntry (E := E) .transactionBatch h₂ hindex
    ⟨hindex, b, hmem, p, hp, rfl⟩ (hk₂ _ _)
    (h₂.behind.raise_batch hb (hk₂ _ _) (by rw [raise_of_ne (by decide)]; simp) (by simp))
  refine hbatch.mono (fun _ => Grown.mono (le_raise.trans le_raise)) (fun _ t₃ h₃ => ?_)
    (fun _ _ => id)
  refine ⟨_, ?_, h₃, by simp⟩
  exact (ahead_raise (by decide)).trans ((ahead_raise (by decide)).trans (ahead_raise (by decide)))

theorem meets_handleStateBatch {e : Log BatchAppendedArgs} (h : Gapless net l1 synced c db)
    (he : l1.stateBatches[k]? = some e)
    (hroots : k ≤ c .stateRootBatch → e.args.span.1 ≤ c .stateRoot)
    (hE : ∀ err, (∀ name, err = .missingElement name → ¬k ≤ c .stateRootBatch) → E err db) :
    Meets (Grown net l1 synced c)
      (handleEvent net rpc (handleEventsStateBatchAppended net.decodeFunctionData) e) db
      (fun _ t => k ≤ c .stateRootBatch ∧ Gapless net l1 synced
        (raise (raise c .stateRootBatch (k + 1)) .stateRoot (e.args.span.1 + e.args.span.2)) t)
      E := by
  have hmem := mem_of_getElem? he
  apply meets_handleEvent (l1.stateBatch net e)
    (fun x hx => by rw [stateExtraData_of_honest hrpc hx]; rfl)
    (hE _ (by simp)) (fun _ => hE _ (by simp))
  intro p hp
  obtain ⟨hindex, hnumbered⟩ := stateBatch_numbered hp
  replace hindex : p.stateRootBatchEntry.index = k := hindex.trans (hl1.stateBatches k e he)
  have hsize := hl1.stateSize e hmem p hp
  refine .bind (meets_requirePrevious h fun hk => hE _ fun _ _ => hindex ▸ hk) ?_
  rintro _ t ⟨rfl, hk⟩
  rw [hindex] at hk
  refine .bind (meets_putEntry .stateRootBatch h hindex ⟨hindex, e, hmem, p, hp, rfl⟩ hk
    (h.behind.raise (by decide))) ?_
  intro _ t₁ h₁
  have hroots' : e.args.span.1 ≤ raise c .stateRootBatch (k + 1) .stateRoot := by
    rw [raise_of_ne (by decide)]
    exact hroots hk
  have hput := meets_putEntries (E := E) .stateRoot h₁ hnumbered
    (fun entry hentry => ⟨rfl, e, hmem, p, hp, hentry⟩) hroots' (h₁.behind.raise (by decide))
  rw [hsize] at hput
  exact hput.mono (fun _ => Grown.mono le_raise) (fun _ t₂ h₂ => ⟨hk, h₂⟩) (fun _ _ => id)

end DataTransportLayer
