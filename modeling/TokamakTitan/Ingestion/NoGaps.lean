import TokamakTitan.Ingestion.Steps
import TokamakTitan.Library.Along

/-! Runs of the ingestion service, with crashes, restarts and failures of the provider at any point.
A state batch is stored before its roots, and its handler does not ask for the roots before them;
where that does not matter the database never has a gap, and where the provider omits nothing it has
all events up to the highest synced block. -/
namespace DataTransportLayer
open BatchSubmitter CoreUtils List Option
open BigEndian (encode decode)
open InitialSegment (Abutting)
open Runs (Along)

def Service.run (net : Network) (steps : List Step) : Service :=
  steps.foldl (Service.step net) .fresh

/-- Whatever the provider leaves out and wherever the service crashes, no gap comes up in runs whose
passes do not continue after a state batch without its roots; and in runs of a well configured
service whose provider omits nothing, all events up to the highest synced block are stored. -/
theorem ingestion_without_gaps (net : Network) (l1 : L1) (hl1 : l1.Consecutive net)
    (steps : List Step) (hrpc : ∀ e ∈ steps, e.rpc.Honest l1) :
    (Along (Service.step net) (fun s e => e.Backed net s) .fresh steps →
      NoGaps net l1 (Service.run net steps).db) ∧
    (Along (Service.step net) (fun s e => e.OmitsNothing net l1 s ∧ e.Configured l1 s) .fresh
        steps →
      NoGaps net l1 (Service.run net steps).db ∧
      ∀ block, (Service.run net steps).db.highestSyncedL1Block = some block →
        StoredUpTo net l1 (Service.run net steps).db block) := by
  have hhonest : Along (Service.step net) (fun _ e => e.rpc.Honest l1) .fresh steps :=
    Runs.along_of_forall fun e he _ => hrpc e he
  constructor
  case left =>
    intro hbacked
    have hsound := Runs.invariant_of_along (fun s => Sound net l1 s.db)
      (fun s e hs he => step_keeps_sound hl1 he.1 hs he.2) ⟨_, _, gapless_empty⟩
      (Runs.along_and hhonest hbacked)
    obtain ⟨synced, c, hdb⟩ := hsound
    exact hdb.noGaps hl1
  case right =>
    intro homits
    have hwhole := Runs.invariant_of_along
      (fun s => Whole net l1 s.db ∧ ∀ b, s.startingL1BlockNumber = some b → l1.NoneBefore b)
      (fun s e hs he => step_keeps_whole hl1 he.1 he.2.1 he.2.2 hs.1 hs.2)
      ⟨⟨_, _, gapless_empty, by simp, by simp⟩, by simp [Service.fresh]⟩
      (Runs.along_and hhonest homits)
    obtain ⟨⟨synced, c, hdb, hdate⟩, -⟩ := hwhole
    refine ⟨hdb.noGaps hl1, fun block hblock => ?_⟩
    have hblock : synced.highestSyncedL1Block = some block := by
      rw [← hdb.synced]
      exact hblock
    exact hdb.storedUpTo hl1 (hdate.highest block hblock).2

/-- The roots follow the selector, two words and the word of their number. -/
def devNet : Network where
  zlib := storedZlib
  ethers := legacyEthers
  decodeFunctionData data := some ((range ((data.length - 100) / 32)).map fun i =>
    (data.drop (100 + 32 * i)).take 32)
  l2ChainId := 10

/-- A transaction and one of the queue. -/
def devBatch : Bytes :=
  FOUR_BYTE_APPEND_SEQUENCER_BATCH ++
    [0, 0, 0, 0, 0, 0, 0, 2, 0, 0, 1, 0, 0, 1, 0, 0, 1, 0, 0, 0, 0, 9, 0, 0, 0, 0, 5, 0, 0, 100] ++
    legacyEthers.serializeTransaction (legacyTx 3)

def devRoots (hash : Bytes) : Bytes :=
  [0x8c, 0xa5, 0xcb, 0xb9] ++ [64, 0, 1, decode hash].flatMap (encode 32)

def devSequenced : SequencerBatchLogs where
  appended := ⟨6, [6], 1, ⟨⟨0⟩, 1⟩⟩
  batch := ⟨6, [6], 0, ⟨0, [], 2, 0, []⟩⟩
  sameTransaction := rfl
  adjacent := rfl

def devState (k : ℕ) : Log BatchAppendedArgs :=
  ⟨7 + k, [7, .ofNat k], 0, ⟨k, [], 1, k, []⟩⟩

def devL1 : L1 where
  enqueued := [⟨5, [5], 0, ⟨[1], [2], 21000, [], 0, 9⟩⟩]
  sequencerBatches := [devSequenced]
  stateBatches := [devState 0, devState 1]
  transaction := fun hash => ⟨[], hash, if hash = [6] then devBatch else devRoots hash⟩
  timestamp := id

def devStep (call : Call) (confirmations startHeight : ℕ) (rpc : Rpc) (crash : Option ℕ) : Step :=
  ⟨call, ⟨confirmations, 100, some startHeight, false⟩, rpc, true, crash⟩

/-- The service crashes after it has put the first state batch and before it puts its root. -/
def crashing : List Step :=
  [devStep .start 0 1 (devL1.provider 8) none, devStep .iterate 0 1 (devL1.provider 8) (some 8),
    devStep .start 0 1 (devL1.provider 8) none]

theorem abutting_one (n : ℕ) : Abutting [(0, n)] :=
  ⟨fun _ hb => by rw [← some.inj hb], fun _ _ _ _ hb' => by cases hb'⟩

theorem abutting_two (m n : ℕ) : Abutting [(0, m), (m, n)] := by
  constructor
  case first => exact fun _ hb => by rw [← some.inj hb]
  case next =>
    rintro (_ | k) b b' hb hb'
    · rw [← some.inj hb, ← some.inj hb']
      exact (Nat.zero_add m).symm
    · cases hb'

theorem devL1_consecutive : devL1.Consecutive devNet := by
  constructor
  case enqueuedOrder => decide
  case sequencerOrder => exact pairwise_singleton ..
  case stateOrder => decide
  case enqueued =>
    rintro (_ | k) e he
    · obtain rfl := some.inj he
      rfl
    · cases he
  case sequencerBatches =>
    rintro (_ | k) b hb
    · obtain rfl := some.inj hb
      rfl
    · cases hb
  case stateBatches =>
    rintro (_ | _ | k) e he
    · obtain rfl := some.inj he
      rfl
    · obtain rfl := some.inj he
      rfl
    · cases he
  case transactions => exact abutting_one 2
  case queue => exact abutting_one 1
  case stateRoots => exact abutting_two 1 1
  case sequencerSize =>
    intro b hb p hp
    obtain rfl := mem_singleton.mp hb
    have hparsed : (devL1.sequencerBatch devNet devSequenced).map
        (fun p => (p.transactionEntries.length, (queueIndexes p.transactionEntries).length)) =
          .ok (2, 1) := by decide +kernel
    rw [hp] at hparsed
    exact Prod.mk.inj (Except.ok.inj hparsed)
  case stateSize =>
    intro e he p hp
    have hsize : ∀ e ∈ devL1.stateBatches, (devL1.stateBatch devNet e).map
        (fun p => p.stateRootEntries.length) = .ok e.args.batchSize := by decide +kernel
    have hparsed := hsize e he
    rw [hp] at hparsed
    exact Except.ok.inj hparsed
  case distinctLogs =>
    intro b hb b' hb' _ _
    rw [mem_singleton.mp hb, mem_singleton.mp hb']

def restarted : List Step :=
  crashing ++ [devStep .iterate 0 1 (devL1.provider 8) none]

def omitting : List Step :=
  crashing ++ [devStep .iterate 0 1
    {devL1.provider 8 with stateBatchAppended := fun _ => some [devState 1]} none]

def young : List Step :=
  [devStep .start 5 1 (devL1.provider 4) none, devStep .iterate 5 1 (devL1.provider 4) none,
    devStep .iterate 5 1 (devL1.provider 13) none]

def late : List Step :=
  [devStep .start 0 6 (devL1.provider 8) none, devStep .iterate 0 6 (devL1.provider 8) none]

theorem mem_restarted {e : Step} (he : e ∈ restarted) :
    ∃ call crash, e = devStep call 0 1 (devL1.provider 8) crash := by
  simp only [restarted, crashing, cons_append, nil_append, mem_cons, not_mem_nil, or_false] at he
  rcases he with rfl | rfl | rfl | rfl
  all_goals exact ⟨_, _, rfl⟩

theorem devStates_backed (db : TransportDB) : Backed db [devState 0, devState 1] := by
  rintro (_ | ⟨e', _ | ⟨e'', before⟩⟩) e after hevents hpos - - -
  · obtain ⟨rfl, -⟩ := cons.inj hevents
    cases hpos
  · obtain ⟨rfl, hrest⟩ := cons.inj hevents
    obtain ⟨rfl, -⟩ := cons.inj hrest
    exact ⟨_, mem_singleton_self _, rfl⟩
  · have hlength := congrArg length hevents
    simp at hlength

theorem restarted_backed :
    Along (Service.step devNet) (fun s e => e.Backed devNet s) .fresh
      restarted := by
  refine ⟨?_, ?_, ?_, ?_, trivial⟩
  · intro starting current hs
    cases hs
  · intro starting current hs hc
    obtain rfl := some.inj hs
    obtain rfl := some.inj hc
    exact devStates_backed _
  · intro starting current hs
    cases hs
  · intro starting current hs hc
    obtain rfl : starting = 1 := some.inj (hs.symm.trans (by decide +kernel))
    obtain rfl := some.inj hc
    refine (congrArg (Backed _) ?_).mpr (devStates_backed _)
    decide +kernel

theorem devL1_noneBefore : devL1.NoneBefore 1 := by
  refine ⟨by decide, ?_, by decide⟩
  intro b hb
  rw [mem_singleton.mp hb]
  decide

theorem devStep_configured (call : Call) (crash : Option ℕ) (s : Service) :
    (devStep call 0 1 (devL1.provider 8) crash).OmitsNothing devNet devL1 s ∧
      (devStep call 0 1 (devL1.provider 8) crash).Configured devL1 s := by
  refine ⟨fun starting _ => provider_complete devNet starting, fun _ _ => Nat.zero_le _, ?_⟩
  intro _ block hblock
  obtain rfl := some.inj hblock
  exact devL1_noneBefore

theorem ingestion_without_gaps_sample :
    (Service.run devNet restarted).db.highestSyncedL1Block = some 8 ∧
      NoGaps devNet devL1 (Service.run devNet restarted).db ∧
      StoredUpTo devNet devL1 (Service.run devNet restarted).db 8 := by
  have hhighest : (Service.run devNet restarted).db.highestSyncedL1Block = some 8 := by
    decide +kernel
  have hhonest : ∀ e ∈ restarted, e.rpc.Honest devL1 := by
    intro e he
    obtain ⟨call, crash, rfl⟩ := mem_restarted he
    exact provider_honest
  have hrun := ingestion_without_gaps devNet devL1 devL1_consecutive restarted
    hhonest
  have hwhole := hrun.2 (Runs.along_of_forall fun e he s => by
    obtain ⟨call, crash, rfl⟩ := mem_restarted he
    exact devStep_configured call crash s)
  exact ⟨hhighest, hrun.1 restarted_backed, hwhole.2 8 hhighest⟩

theorem omitting_honest : ∀ e ∈ omitting, e.rpc.Honest devL1 := by
  intro e he
  rcases mem_append.mp he with he | he
  · obtain ⟨call, crash, rfl⟩ := mem_restarted (mem_append_left _ he)
    exact provider_honest
  · obtain rfl := mem_singleton.mp he
    have hhonest : (devL1.provider 8).Honest devL1 := provider_honest
    refine ⟨hhonest.1, hhonest.2, ?_, hhonest.4, hhonest.5, hhonest.6⟩
    intro range events hevents e he
    obtain rfl := some.inj hevents
    rw [mem_singleton.mp he]
    decide

/-- The run omits nothing and has synced up to block 8, and yet it has not stored the events up
to there. -/
def PassesOver (steps : List Step) : Prop :=
  (∀ e ∈ steps, e.rpc.Honest devL1 ∧ ∀ s, e.OmitsNothing devNet devL1 s) ∧
    (Service.run devNet steps).db.highestSyncedL1Block = some 8 ∧
      ¬StoredUpTo devNet devL1 (Service.run devNet steps).db 8

theorem passesOver_of_missing {steps : List Step}
    (hsteps : ∀ e ∈ steps, ∃ n, e.rpc = devL1.provider n)
    (hhighest : (Service.run devNet steps).db.highestSyncedL1Block = some 8)
    (hmissing : ((Service.run devNet steps).db.store .enqueue 0).isNone) : PassesOver steps := by
  refine ⟨fun e he => ?_, hhighest, fun hstored => ?_⟩
  · obtain ⟨n, hn⟩ := hsteps e he
    simp only [Step.OmitsNothing, hn]
    exact ⟨provider_honest, fun _ starting _ => provider_complete devNet starting⟩
  · obtain ⟨entry, hparse, hentry⟩ := hstored.enqueued _ mem_cons_self (by decide)
    cases hparse
    rw [isNone_iff_eq_none.mp hmissing] at hentry
    cases hentry

theorem young_provider : ∀ e ∈ young, ∃ n, e.rpc = devL1.provider n := by
  simp [young, devStep]

theorem late_provider : ∀ e ∈ late, ∃ n, e.rpc = devL1.provider n := by
  simp [late, devStep]

/-- A crash between a state batch and its root, followed by an omission, leaves a gap in the state
roots below the latest index. Without any omission, events are passed over when the highest synced
block has become negative, which counts from the head of the chain, and when the starting block lies
behind them. -/
theorem ingestion_leaves_gaps :
    devL1.Consecutive devNet ∧
      (∀ e ∈ omitting, e.rpc.Honest devL1) ∧
      ((Service.run devNet omitting).db.store .stateRoot 0).isNone ∧
      ((Service.run devNet omitting).db.store .stateRoot 1).isSome ∧
      (Service.run devNet omitting).db.latest .stateRoot = some 1 ∧
      PassesOver young ∧ PassesOver late := by
  refine ⟨devL1_consecutive, omitting_honest, by decide +kernel, by decide +kernel,
    by decide +kernel, ?_, ?_⟩
  · exact passesOver_of_missing young_provider (by decide +kernel) (by decide +kernel)
  · exact passesOver_of_missing late_provider (by decide +kernel) (by decide +kernel)

end DataTransportLayer
