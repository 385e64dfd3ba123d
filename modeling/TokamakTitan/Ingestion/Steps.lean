import TokamakTitan.Ingestion.WholePasses

/-! What one call of the ingestion service keeps, however it ends. -/
namespace DataTransportLayer
open BatchSubmitter CoreUtils List Option
open Traced (Program Outcome get modify fail forEach attempt Meets)

/-- Every key is filled from zero on, with what the events determine. -/
structure NoGaps (net : Network) (l1 : L1) (db : TransportDB) : Prop where
  lower : ∀ key i j, (db.store key i).isSome → j < i → (db.store key j).isSome
  determined : ∀ key i v, db.store key i = some v → ∀ w, l1.Determined net key i w ↔ w = v
  latest : ∀ key i, db.latest key = some i → ∀ j ≤ i, (db.store key j).isSome

/-- All events up to the block are stored with everything they carry. -/
structure StoredUpTo (net : Network) (l1 : L1) (db : TransportDB) (limit : ℤ) : Prop where
  enqueued : ∀ e ∈ l1.enqueued, (e.blockNumber : ℤ) ≤ limit →
    ∃ entry, TransactionEnqueued.parseEvent e = .ok entry ∧
      db.store .enqueue entry.index = some entry
  sequencer : ∀ b ∈ l1.sequencerBatches, (b.appended.blockNumber : ℤ) ≤ limit →
    ∃ p, l1.sequencerBatch net b = .ok p ∧
      db.store .transactionBatch p.transactionBatchEntry.index = some p.transactionBatchEntry ∧
      (∀ entry ∈ p.transactionEntries, db.store .transaction entry.index = some entry) ∧
      ∀ q ∈ queueIndexes p.transactionEntries, db.store .enqueueCtcIndex q.1 = some q.2
  state : ∀ e ∈ l1.stateBatches, (e.blockNumber : ℤ) ≤ limit →
    ∃ p, l1.stateBatch net e = .ok p ∧
      db.store .stateRootBatch p.stateRootBatchEntry.index = some p.stateRootBatchEntry ∧
      ∀ entry ∈ p.stateRootEntries, db.store .stateRoot entry.index = some entry

variable {net : Network} {synced : SyncedBlocks} {l1 : L1} {db : TransportDB} {c : Key → ℕ}

theorem Gapless.noGaps (hl1 : l1.Consecutive net) (h : Gapless net l1 synced c db) :
    NoGaps net l1 db := by
  constructor
  case lower =>
    intro key i j hi hj
    rw [(h.holds key).isSome_iff] at hi ⊢
    omega
  case determined =>
    intro key i v hv w
    have hright := (h.holds key).right i v hv
    constructor
    · exact fun hw => hl1.determined_unique hw hright
    · rintro rfl
      exact hright
  case latest =>
    intro key i hi j hj
    have := h.latest key i hi
    rw [(h.holds key).isSome_iff]
    omega

theorem Gapless.store_eq (hl1 : l1.Consecutive net) (h : Gapless net l1 synced c db) {key : Key}
    {i : ℕ} {v : key.Value} (hv : l1.Determined net key i v) (hi : i < c key) :
    db.store key i = some v := by
  obtain ⟨w, hw⟩ := (h.holds key).exists_of_lt hi
  rw [hw, hl1.determined_unique ((h.holds key).right i w hw) hv]

theorem Gapless.storedUpTo (hl1 : l1.Consecutive net) (h : Gapless net l1 synced c db)
    {limit : ℤ} (hfull : FullUpTo l1 c limit) : StoredUpTo net l1 db limit := by
  constructor
  case enqueued =>
    intro e he hblock
    obtain ⟨k, hk⟩ := mem_iff_getElem?.mp he
    obtain ⟨entry, hentry⟩ := (h.holds .enqueue).exists_of_lt (hfull.enqueued k e hk hblock)
    obtain ⟨hindex, e', he', hparse⟩ := (h.holds .enqueue).right k entry hentry
    have hsame : e' = e := by
      apply eq_of_position hl1.enqueued he' he
      rw [← enqueued_index hparse, hindex, hl1.enqueued k e hk]
    exact ⟨entry, hsame ▸ hparse, by rwa [hindex]⟩
  case sequencer =>
    intro b hb hblock
    obtain ⟨k, hk⟩ := mem_iff_getElem?.mp hb
    have hlt := hfull.sequencer k b hk hblock
    obtain ⟨entry, hentry⟩ := (h.holds .transactionBatch).exists_of_lt hlt
    obtain ⟨hindex, b', hb', p, hp, rfl⟩ := (h.holds .transactionBatch).right k entry hentry
    have hsame : b' = b := by
      apply eq_of_position hl1.sequencerBatches hb' hb
      rw [hl1.sequencerBatches k b hk, ← hindex]
      exact (parseEvent_numbered hp).1.symm
    subst hsame
    obtain ⟨htransactions, hqueue⟩ := h.behind k b' hk hlt
    refine ⟨p, hp, by rwa [hindex], fun entry hentry => ?_, fun q hq => ?_⟩
    · have hmem := hl1.mem_transactions hb hp hentry
      exact h.store_eq hl1 ⟨rfl, b', hb, p, hp, hentry⟩ (hmem.2.trans_le htransactions)
    · have hmem := hl1.mem_queue hb hp hq
      have hq' : l1.Determined net .enqueueCtcIndex q.1 q.2 := ⟨b', hb, p, hp, hq⟩
      exact h.store_eq hl1 hq' (hmem.2.trans_le hqueue)
  case state =>
    intro e he hblock
    obtain ⟨k, hk⟩ := mem_iff_getElem?.mp he
    obtain ⟨hlt, hroots⟩ := hfull.state k e hk hblock
    obtain ⟨entry, hentry⟩ := (h.holds .stateRootBatch).exists_of_lt hlt
    obtain ⟨hindex, e', he', p, hp, rfl⟩ := (h.holds .stateRootBatch).right k entry hentry
    have hsame : e' = e := by
      apply eq_of_position hl1.stateBatches he' he
      rw [hl1.stateBatches k e hk, ← hindex, (stateBatch_numbered hp).1]
    subst hsame
    refine ⟨p, hp, by rwa [hindex], fun root hroot => ?_⟩
    have hmem := hl1.mem_stateRoots he hp hroot
    exact h.store_eq hl1 ⟨rfl, e', he, p, hp, hroot⟩ (hmem.2.trans_le (hroots e' hk))

def Step.Backed (net : Network) (s : Service) (e : Step) : Prop :=
  ∀ starting current, s.startingL1BlockNumber = some starting →
    e.rpc.getBlockNumber = some current →
      let highest := highestSyncedL1Block s.db starting
      let target := targetL1Block e.options highest current
      DataTransportLayer.Backed s.db
        ((stateRequest e.rpc highest target).received net e.rpc starting)

def Step.OmitsNothing (net : Network) (l1 : L1) (s : Service) (e : Step) : Prop :=
  ∀ starting, s.startingL1BlockNumber = some starting → e.rpc.Complete net l1 starting

def L1.NoneBefore (l1 : L1) (block : ℕ) : Prop :=
  (∀ e ∈ l1.enqueued, block ≤ e.blockNumber) ∧
    (∀ b ∈ l1.sequencerBatches, block ≤ b.appended.blockNumber) ∧
      ∀ e ∈ l1.stateBatches, block ≤ e.blockNumber

/-- The chain has as many blocks as are to be confirmed, and a settled starting block is not behind
an event. -/
def Step.Configured (l1 : L1) (s : Service) (e : Step) : Prop :=
  (∀ current, e.rpc.getBlockNumber = some current → e.options.confirmations ≤ current) ∧
    (s.db.startingL1Block = none → ∀ block,
      e.options.l1StartHeight.or e.rpc.findStartingL1BlockNumber = some block →
        l1.NoneBefore block)

variable {Inv : TransportDB → Prop} {s : Service}

section Ends

variable {α : Type} {P : ℕ → Prop}

theorem finish_keeps {m : Ingestion α} {goesOn : α → ℕ}
    (h : Meets Inv m s.db (fun a t => Inv t ∧ P (goesOn a)) (fun _ => Inv)) (hs : Inv s.db)
    (crash : Option ℕ) :
    Inv (s.finish (m.run s.db) crash goesOn).db ∧
      ∀ b, (s.finish (m.run s.db) crash goesOn).startingL1BlockNumber = some b → P b := by
  have hstate : Inv (m.run s.db).state := by
    cases hr : (m.run s.db).result with
    | ok => exact (h.of_ok hr).1
    | error => exact h.of_error hr
  cases crash with
  | some writes =>
    refine ⟨?_, by simp [Service.finish]⟩
    cases writes with
    | zero => exact hs
    | succ n =>
      simp only [Service.finish, surviving, getD_eq_getElem?_getD]
      cases hn : (m.run s.db).trace[n]? with
      | none => exact hstate
      | some t => exact h.1 t (mem_of_getElem? hn)
  | none =>
    cases hr : (m.run s.db).result with
    | ok =>
      simp only [Service.finish, hr, some.injEq]
      refine ⟨hstate, ?_⟩
      rintro b rfl
      exact (h.of_ok hr).2
    | error =>
      simp only [Service.finish, hr]
      exact ⟨hstate, by simp⟩

end Ends

variable {starting : ℕ}

section Calls

variable {options : Options} {rpc : Rpc}

theorem meets_iteration {running : Bool}
    (hpass : Meets Inv (syncPass net options rpc starting) db (fun _ => Inv)
      (fun err t => Inv t ∧ (NotMissing err ∨
        ∀ block, Inv (t.setHighestSyncedL1Block block)))) :
    Meets Inv (iteration net options rpc running starting) db (fun _ => Inv) (fun _ => Inv) := by
  refine .bind hpass.attempt fun r t ht => ?_
  cases r with
  | ok => exact .pure ht
  | error err =>
    obtain ⟨ht, hcases⟩ := ht
    cases err with
    | missingElement name =>
      have hset : ∀ block, Inv (t.setHighestSyncedL1Block block) :=
        hcases.resolve_left fun hnot => hnot name rfl
      apply Meets.get_bind
      split
      · exact .fail ht
      · exact .modify (hset _) (hset _)
    | rpc | parse _ | invalidIndex | unableToRecover =>
      simp only [recover]
      split
      · exact .pure ht
      · exact .fail ht

theorem meets_syncPass {E : IngestionError → TransportDB → Prop} (h : Inv db) (hrpc : E .rpc db)
    (hsync : ∀ current, rpc.getBlockNumber = some current →
      let highest := highestSyncedL1Block db starting
      Meets Inv (syncAll net rpc starting highest (targetL1Block options highest current)) db
        (fun _ => Inv) E) :
    Meets Inv (syncPass net options rpc starting) db (fun _ => Inv) E := by
  apply Meets.get_bind
  split
  · exact .fail hrpc
  case h_2 current hcurrent =>
    dsimp only
    split
    · exact .pure h
    · exact hsync current hcurrent

theorem meets_init {P : ℕ → Prop} (h : Inv db) (hstart : ∀ block, 0 < block →
      db.startingL1Block.or (options.l1StartHeight.or rpc.findStartingL1BlockNumber) =
        some block → Inv (db.setStartingL1Block block) ∧ P block) :
    Meets Inv (init options rpc) db (fun block t => Inv t ∧ P block) (fun _ => Inv) := by
  apply Meets.get_bind
  split
  · exact .fail h
  · exact .fail h
  case h_3 block hne hblock =>
    have hpos : 0 < block := Nat.pos_of_ne_zero hne
    obtain ⟨hset, hp⟩ := hstart block hpos hblock
    exact .bind (B := fun _ t => t = db.setStartingL1Block block) (.modify hset rfl)
      fun _ t ht => .pure ⟨ht ▸ hset, hp⟩

end Calls

variable {e : Step}

theorem meets_iteration_sound (hl1 : l1.Consecutive net) (hrpc : e.rpc.Honest l1)
    (hs : Sound net l1 s.db) (hbacked : e.Backed net s)
    (hstarting : s.startingL1BlockNumber = some starting) :
    Meets (Sound net l1) (iteration net e.options e.rpc e.running starting) s.db
      (fun _ => Sound net l1) (fun _ => Sound net l1) := by
  refine meets_iteration (meets_syncPass hs ?_ fun current hcurrent => ?_)
  · exact ⟨hs, .inr hs.setHighestSyncedL1Block⟩
  · obtain ⟨synced, c, hdb⟩ := hs
    exact (meets_syncAll hl1 hrpc hdb (hbacked starting current hstarting hcurrent)).mono
      (fun _ => id) (fun _ _ => id) (fun _ t ht => ⟨ht, .inr ht.setHighestSyncedL1Block⟩)

theorem step_keeps_sound (hl1 : l1.Consecutive net) (hrpc : e.rpc.Honest l1)
    (hs : Sound net l1 s.db) (hbacked : e.Backed net s) : Sound net l1 (s.step net e).db := by
  simp only [Service.step]
  split
  case h_1 =>
    refine (finish_keeps (P := fun _ => True) (meets_init hs fun block _ _ => ?_) hs _).1
    obtain ⟨synced, c, hdb⟩ := hs
    exact ⟨⟨_, c, rfl, hdb.holds, hdb.latest, hdb.behind⟩, trivial⟩
  case h_2 => exact hs
  case h_3 starting _ hstarting =>
    have hiteration := meets_iteration_sound hl1 hrpc hs hbacked hstarting
    exact (finish_keeps (P := fun _ => True)
      (hiteration.post fun _ _ ht => ⟨ht, trivial⟩) hs _).1

/-- The database has all events up to its highest synced block, and starts early enough. -/
structure UpToDate (l1 : L1) (c : Key → ℕ) (synced : SyncedBlocks) : Prop where
  highest : ∀ block, synced.highestSyncedL1Block = some block →
    0 ≤ block ∧ FullUpTo l1 c block
  starting : ∀ block, synced.startingL1Block = some block → l1.NoneBefore block

def Whole (net : Network) (l1 : L1) (db : TransportDB) : Prop :=
  ∃ synced c, Gapless net l1 synced c db ∧ UpToDate l1 c synced

variable {t : TransportDB}

theorem Grown.whole (h : Grown net l1 synced c t) (hdate : UpToDate l1 c synced) :
    Whole net l1 t := by
  obtain ⟨c', hle, ht⟩ := h
  refine ⟨synced, c', ht, fun block hblock => ?_, hdate.starting⟩
  obtain ⟨hpos, hfull⟩ := hdate.highest block hblock
  exact ⟨hpos, hfull.mono hle le_rfl⟩

variable {db : TransportDB}

theorem UpToDate.below (hdb : Gapless net l1 synced c db) (h : UpToDate l1 c synced)
    (hstarting : l1.NoneBefore starting) :
    0 ≤ highestSyncedL1Block db starting ∧
      FullUpTo l1 c (highestSyncedL1Block db starting - 1) := by
  simp only [highestSyncedL1Block]
  split
  case isTrue =>
    refine ⟨by omega, fun k e' he hb => ?_, fun k b hb hblock => ?_, fun k e' he hb => ?_⟩
    · have := hstarting.1 e' (mem_of_getElem? he)
      omega
    · have := hstarting.2.1 b (mem_of_getElem? hb)
      omega
    · have := hstarting.2.2 e' (mem_of_getElem? he)
      omega
  case isFalse hne =>
    rw [TransportDB.getHighestSyncedL1Block, hdb.synced] at hne ⊢
    cases hhighest : synced.highestSyncedL1Block with
    | none => simp [hhighest] at hne
    | some block =>
      obtain ⟨hpos, hfull⟩ := h.highest block hhighest
      exact ⟨by simpa using hpos, hfull.mono le_rfl (by simp)⟩

theorem SyncedTo.whole {target : ℤ} (h : SyncedTo net l1 synced target t)
    (hdate : UpToDate l1 c synced) (htarget : 0 ≤ target) : Whole net l1 t := by
  obtain ⟨c', hfull, ht⟩ := h
  refine ⟨_, c', ht, fun block hblock => ?_, hdate.starting⟩
  obtain rfl := some.inj hblock
  exact ⟨htarget, hfull⟩

theorem Whole.setStartingL1Block {block : ℕ} (h : Whole net l1 db) (hblock : l1.NoneBefore block) :
    Whole net l1 (db.setStartingL1Block block) := by
  obtain ⟨synced, c, hdb, hdate⟩ := h
  refine ⟨_, c, ⟨rfl, hdb.holds, hdb.latest, hdb.behind⟩, fun b hb => ?_, fun b hb => ?_⟩
  · exact hdate.highest b (by rw [← hdb.synced]; exact hb)
  · obtain rfl : block = b := some.inj hb
    exact hblock

variable (hl1 : l1.Consecutive net) (hrpc : e.rpc.Honest l1)
  (homits : e.OmitsNothing net l1 s) (hconfigured : e.Configured l1 s)
include hl1 hrpc homits hconfigured

theorem meets_iteration_whole (hs : Whole net l1 s.db)
    (hstarting : s.startingL1BlockNumber = some starting) (hnone : l1.NoneBefore starting) :
    Meets (Whole net l1) (iteration net e.options e.rpc e.running starting) s.db
      (fun _ => Whole net l1) (fun _ => Whole net l1) := by
  refine meets_iteration (meets_syncPass hs ?_ fun current hcurrent => ?_)
  · exact ⟨hs, .inl fun _ => by simp⟩
  · obtain ⟨synced, c, hdb, hdate⟩ := hs
    obtain ⟨hpos, hbelow⟩ := hdate.below hdb hnone
    have htarget : 0 ≤ targetL1Block e.options (highestSyncedL1Block s.db starting) current := by
      have := hconfigured.1 current hcurrent
      simp only [targetL1Block]
      omega
    refine (meets_syncWholeAll hl1 hrpc (homits starting hstarting) hcurrent hpos htarget
      hbelow hdb).mono (fun t ht => ?_) (fun _ t ht => ht.whole hdate htarget)
      (fun _ t ht => ⟨ht.1.whole hdate, .inl ht.2⟩)
    rcases ht with ht | ht
    · exact ht.whole hdate
    · exact ht.whole hdate htarget

theorem step_keeps_whole (hs : Whole net l1 s.db)
    (hstarts : ∀ b, s.startingL1BlockNumber = some b → l1.NoneBefore b) :
    Whole net l1 (s.step net e).db ∧
      ∀ b, (s.step net e).startingL1BlockNumber = some b → l1.NoneBefore b := by
  simp only [Service.step]
  split
  case h_1 =>
    refine finish_keeps (meets_init hs fun block hpos hblock => ?_) hs _
    have hnone : l1.NoneBefore block := by
      cases hstored : s.db.startingL1Block with
      | none =>
        rw [hstored, none_or] at hblock
        exact hconfigured.2 hstored block hblock
      | some =>
        rw [hstored, some_or, some.injEq] at hblock
        obtain ⟨synced, c, hdb, hdate⟩ := hs
        exact hdate.starting block (by rw [← hdb.synced, ← hblock]; exact hstored)
    exact ⟨hs.setStartingL1Block hnone, hnone⟩
  case h_2 => exact ⟨hs, hstarts⟩
  case h_3 starting _ hstarting =>
    have hnone := hstarts starting hstarting
    have hiteration := meets_iteration_whole hl1 hrpc homits hconfigured hs hstarting hnone
    exact finish_keeps (hiteration.post fun _ _ ht => ⟨ht, hnone⟩)
      hs _

end DataTransportLayer
