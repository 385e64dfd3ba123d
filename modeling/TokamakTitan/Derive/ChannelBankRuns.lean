import TokamakTitan.Derive.ChannelBank

/-! Runs of the bank of channels: the oldest channels go first, and what the end of the data says
about the channels that are left. -/
namespace Derive
open List

/-- L1 data is ingested, or the next data is asked for, with the answer of the stage before the
bank. -/
inductive BankCall where
  | ingest (data : Bytes)
  | next (prev : Except Error Bytes)

namespace BankCall

def data? : BankCall → Option Bytes
  | .ingest data => some data
  | .next (.ok data) => some data
  | .next (.error _) => none

/-- L1 data of fewer than 2^60 bytes. The sizes of its frames do not wrap around. -/
def Short (c : BankCall) : Prop := ∀ data ∈ c.data?, data.length < 2 ^ 60

end BankCall

namespace ChannelBank

section Config

variable (cfg : Config) (origin : L1BlockRef) (bank : ChannelBank)

def nextDataFrom (prev : Except Error Bytes) : ChannelBank × Except Error Bytes :=
  match bank.read cfg origin with
  | (bank, .error .eof) => bank.ingestNext cfg origin prev
  | (bank, result) => (bank, result)

def call : BankCall → ChannelBank × Except Error (Option Bytes)
  | .ingest data =>
    match bank.ingestData cfg origin data with
    | .error err => (bank, .error err)
    | .ok bank => (bank, .ok none)
  | .next prev =>
    ((bank.nextDataFrom cfg origin prev).1, (bank.nextDataFrom cfg origin prev).2.map some)

def ingested : BankCall → Option (ChannelBank × Bytes)
  | .ingest data => some (bank, data)
  | .next (.ok data) =>
    match bank.read cfg origin with
    | (bank, .error .eof) => some (bank, data)
    | _ => none
  | .next (.error _) => none

def firstSeen (c : BankCall) : List ChannelID :=
  match bank.ingested cfg origin c with
  | none => []
  | some (bank, data) => firstSeenInData cfg origin bank data

def delivered (c : BankCall) : List ChannelID :=
  match (bank.call cfg origin c).2 with
  | .ok (some _) => bank.channelQueue.head?.toList
  | _ => []

end Config

section Runs

variable (cfg : Config)

def run (bank : ChannelBank) (calls : List (L1BlockRef × BankCall)) : ChannelBank :=
  calls.foldl (fun bank c => (bank.call cfg c.1 c.2).1) bank

def seenLog : ChannelBank → List (L1BlockRef × BankCall) → List ChannelID
  | _, [] => []
  | bank, c :: calls => bank.firstSeen cfg c.1 c.2 ++ seenLog (bank.call cfg c.1 c.2).1 calls

def readLog : ChannelBank → List (L1BlockRef × BankCall) → List ChannelID
  | _, [] => []
  | bank, c :: calls => bank.delivered cfg c.1 c.2 ++ readLog (bank.call cfg c.1 c.2).1 calls

end Runs

section Statements

variable (cfg : Config) (origin : L1BlockRef) (bank : ChannelBank)

structure CallKeeps (c : BankCall) : Prop where
  consistent : (bank.call cfg origin c).1.Consistent
  no_panic : (bank.call cfg origin c).2 = .error .panic → c = .next (.error .panic)
  prunes : ∀ b data, bank.ingested cfg origin c = some (b, data) →
    ∃ after, b.prune = .ok after ∧ b.PrunedTo after
  delivers : ∀ data, (bank.call cfg origin c).2 = .ok (some data) →
    ∃ id rest ch, bank.channelQueue = id :: rest ∧ bank.channels.lookup id = some ch ∧
      timedOut cfg origin ch = false ∧ ch.isReady = true ∧ ch.reader = .ok data

/-- At the end of the data, the stage before is at its end, and the first channel left is neither
ready nor timed out. -/
def EndOfData (prev : Except Error Bytes) : Prop :=
  (bank.nextDataFrom cfg origin prev).2 = .error .eof → prev = .error .eof ∧
    ∀ id ch, (bank.nextDataFrom cfg origin prev).1.channelQueue.head? = some id →
      (bank.nextDataFrom cfg origin prev).1.channels.lookup id = some ch →
      ch.isReady = false ∧ timedOut cfg origin ch = false

/-- A channel that is ready or timed out behind a first channel that is timed out, with nothing left
to ingest. -/
def Hidden (prev : Except Error Bytes) : Prop :=
  prev = .error .eof ∧ ∃ first second rest ch ch', bank.channelQueue = first :: second :: rest ∧
    bank.channels.lookup first = some ch ∧ timedOut cfg origin ch = true ∧
    bank.channels.lookup second = some ch' ∧ (ch'.isReady = true ∨ timedOut cfg origin ch' = true)

def Readable (id : ChannelID) : Prop :=
  bank.channelQueue.head? = some id ∧
    ∃ ch, bank.channels.lookup id = some ch ∧ timedOut cfg origin ch = false ∧ ch.isReady = true

end Statements

variable {bank : ChannelBank} {cfg : Config} {origin : L1BlockRef}

inductive NextEffect (cfg : Config) (origin : L1BlockRef) (bank : ChannelBank) :
    Except Error Bytes → ChannelBank → Except Error Bytes → Prop
  | returned {prev after data} (hread : bank.read cfg origin = (after, .ok data)) :
      NextEffect cfg origin bank prev after (.ok data)
  | failed {after err} (hread : bank.read cfg origin = (after, .error .eof)) :
      NextEffect cfg origin bank (.error err) after (.error err)
  | ingested {read after data} (hread : bank.read cfg origin = (read, .error .eof))
      (hingest : read.ingestData cfg origin data = .ok after) :
      NextEffect cfg origin bank (.ok data) after (.error .notEnoughData)

theorem Consistent.nextDataFrom_effect (h : bank.Consistent) {prev : Except Error Bytes}
    {after : ChannelBank} {result : Except Error Bytes}
    (hnext : bank.nextDataFrom cfg origin prev = (after, result)) :
    NextEffect cfg origin bank prev after result := by
  unfold nextDataFrom at hnext
  cases hread : bank.read cfg origin with
  | mk =>
    obtain ⟨heffect, hconsistent, -⟩ := h.read hread
    rw [hread] at hnext
    rcases heffect.result_cases with rfl | ⟨data, rfl⟩
    · cases prev with
      | error =>
        cases hnext
        exact .failed hread
      | ok data =>
        obtain ⟨ingested, hingest, -⟩ := hconsistent.ingestData cfg origin data
        simp only [ingestNext, hingest] at hnext
        cases hnext
        exact .ingested hread hingest
    · cases hnext
      exact .returned hread

/-- The channels that leave the bank, among them the one that is returned, are at the front of the
queue with the channels first seen behind it. -/
theorem Consistent.call (cfg : Config) (origin : L1BlockRef) (h : bank.Consistent) (c : BankCall) :
    (bank.call cfg origin c).1.Consistent ∧ ∃ removed,
      bank.channelQueue ++ bank.firstSeen cfg origin c =
        removed ++ (bank.call cfg origin c).1.channelQueue ∧
      (bank.delivered cfg origin c).Sublist removed := by
  cases c with
  | ingest data =>
    obtain ⟨after, hafter, hconsistent, -, removed, hqueue⟩ := h.ingestData cfg origin data
    simp only [ChannelBank.call, delivered, hafter]
    exact ⟨hconsistent, removed, hqueue, nil_sublist _⟩
  | next prev =>
    simp only [ChannelBank.call, delivered]
    cases hnext : bank.nextDataFrom cfg origin prev with
    | mk after =>
      cases h.nextDataFrom_effect hnext with
      | @returned _ _ data hread =>
        obtain ⟨heffect, hconsistent, -⟩ := h.read hread
        have hseen : bank.firstSeen cfg origin (.next prev) = [] := by
          cases prev <;> simp [firstSeen, ingested, hread]
        rw [hseen, append_nil]
        cases heffect with
        | @returned channels id rest => exact ⟨hconsistent, [id], rfl, Sublist.refl _⟩
      | failed hread =>
        obtain ⟨-, hconsistent, -, removed, hqueue⟩ := h.read hread
        refine ⟨hconsistent, removed, ?_, nil_sublist _⟩
        simpa [firstSeen, ingested] using hqueue
      | @ingested read _ data hread hingest =>
        obtain ⟨-, hconsistent, -, removed, hqueue⟩ := h.read hread
        obtain ⟨after, hafter, hlast, -, removed', hqueue'⟩ :=
          hconsistent.ingestData cfg origin data
        rw [hingest] at hafter
        cases hafter
        have hseen : bank.firstSeen cfg origin (.next (.ok data)) =
            firstSeenInData cfg origin read data := by
          simp [firstSeen, ingested, hread]
        refine ⟨hlast, removed ++ removed', ?_, nil_sublist _⟩
        rw [hseen, hqueue, append_assoc, hqueue', append_assoc]

theorem Consistent.ingested (h : bank.Consistent) {c : BankCall} {b : ChannelBank} {data : Bytes}
    (hingested : bank.ingested cfg origin c = some (b, data)) :
    b.Consistent ∧ b.storedSize ≤ bank.storedSize := by
  cases c with
  | ingest =>
    cases hingested
    exact ⟨h, le_rfl⟩
  | next prev =>
    cases prev with
    | error => cases hingested
    | ok =>
      simp only [ChannelBank.ingested] at hingested
      split at hingested
      next read hread =>
        cases hingested
        obtain ⟨-, hconsistent, hsize, -⟩ := h.read hread
        exact ⟨hconsistent, hsize⟩
      next => cases hingested

theorem Consistent.callKeeps (h : bank.Consistent) (c : BankCall) :
    bank.CallKeeps cfg origin c := by
  constructor
  case consistent => exact (h.call cfg origin c).1
  case no_panic =>
    intro hpanic
    cases c with
    | ingest data =>
      obtain ⟨after, hafter, -⟩ := h.ingestData cfg origin data
      simp [ChannelBank.call, hafter] at hpanic
    | next prev =>
      simp only [ChannelBank.call] at hpanic
      cases hnext : bank.nextDataFrom cfg origin prev with
      | mk =>
        rw [hnext] at hpanic
        cases h.nextDataFrom_effect hnext with
        | returned => cases hpanic
        | failed =>
          cases hpanic
          rfl
        | ingested => cases hpanic
  case prunes =>
    intro b data hingested
    obtain ⟨hconsistent, -⟩ := h.ingested hingested
    obtain ⟨after, hafter, hpruned, -⟩ := hconsistent.prune_eq
    exact ⟨after, hafter, hpruned⟩
  case delivers =>
    intro data hdata
    cases c with
    | ingest data =>
      obtain ⟨after, hafter, -⟩ := h.ingestData cfg origin data
      simp [ChannelBank.call, hafter] at hdata
    | next prev =>
      simp only [ChannelBank.call] at hdata
      cases hnext : bank.nextDataFrom cfg origin prev with
      | mk =>
        rw [hnext] at hdata
        cases h.nextDataFrom_effect hnext with
        | failed => cases hdata
        | ingested => cases hdata
        | returned hread =>
          cases hdata
          obtain ⟨heffect, -⟩ := h.read hread
          cases heffect with
          | returned hch htimeout hready hreader =>
            exact ⟨_, _, _, rfl, hch, htimeout, hready, hreader⟩

section EndOfData

variable {prev : Except Error Bytes}

theorem Consistent.second_lookup {channels : AList fun _ : ChannelID => Channel}
    {first second : ChannelID} {rest : List ChannelID}
    (h : Consistent ⟨channels, first :: second :: rest⟩) :
    (channels.erase first).lookup second = channels.lookup second := by
  apply AList.lookup_erase_ne
  rintro rfl
  exact (nodup_cons.mp h.nodup).1 mem_cons_self

theorem Hidden.not_endOfData (hhidden : bank.Hidden cfg origin prev) (h : bank.Consistent) :
    ¬ bank.EndOfData cfg origin prev := by
  obtain ⟨channels, queue⟩ := bank
  obtain ⟨rfl, first, second, rest, ch, ch', rfl, hfirst, htimeout, hsecond, hleft⟩ := hhidden
  have hread : ChannelBank.read cfg origin ⟨channels, first :: second :: rest⟩ =
      (⟨channels.erase first, second :: rest⟩, .error .eof) := by
    simp only [ChannelBank.read, hfirst, htimeout, if_true]
  have hnext : nextDataFrom cfg origin ⟨channels, first :: second :: rest⟩ (.error .eof) =
      (⟨channels.erase first, second :: rest⟩, .error .eof) := by
    rw [nextDataFrom, hread]
    rfl
  intro hend
  unfold EndOfData at hend
  rw [hnext] at hend
  obtain ⟨hready, hlate⟩ := (hend rfl).2 second ch' rfl (h.second_lookup.trans hsecond)
  simp [hready, hlate] at hleft

theorem Consistent.endOfData_iff (h : bank.Consistent) :
    bank.EndOfData cfg origin prev ↔ ¬ bank.Hidden cfg origin prev := by
  constructor
  · exact fun hend hhidden => hhidden.not_endOfData h hend
  · intro hfree hend
    cases hnext : bank.nextDataFrom cfg origin prev with
    | mk =>
      dsimp only
      rw [hnext] at hend
      cases h.nextDataFrom_effect hnext with
      | returned => cases hend
      | ingested => cases hend
      | failed hread =>
        cases hend
        refine ⟨rfl, ?_⟩
        intro id ch hid hch
        obtain ⟨heffect, -⟩ := h.read hread
        cases heffect with
        | empty => cases hid
        | @waiting channels first rest ch' hch' htimeout hready =>
          cases hid
          cases hch'.symm.trans hch
          exact ⟨hready, htimeout⟩
        | @expired channels first rest ch' hch' htimeout =>
          cases rest with
          | nil => cases hid
          | cons second rest =>
            cases hid
            rw [h.second_lookup] at hch
            have hnot : ¬ (ch.isReady = true ∨ timedOut cfg origin ch = true) := fun hleft =>
              hfree ⟨rfl, first, id, rest, ch', ch, rfl, hch', htimeout, hch, hleft⟩
            simpa using hnot

end EndOfData

section Histories

variable {calls : List (L1BlockRef × BankCall)}

def sizeBound : ℕ := maxChannelBankSize.toNat + 10 * 2 ^ 60

theorem lt_of_le_sizeBound (h : bank.storedSize ≤ sizeBound) : bank.storedSize < 2 ^ 64 :=
  h.trans_lt (by decide)

theorem Consistent.call_size {origin : L1BlockRef} {c : BankCall} (h : bank.Consistent)
    (hsize : bank.storedSize ≤ sizeBound) (hshort : c.Short) :
    (bank.call cfg origin c).1.storedSize ≤ sizeBound := by
  have hdata : ∀ {b : ChannelBank} {data}, b.Consistent → b.storedSize ≤ sizeBound →
      data.length < 2 ^ 60 → ∀ after, b.ingestData cfg origin data = .ok after →
      after.storedSize ≤ sizeBound := by
    intro b data hb hle hlength after hafter
    obtain ⟨after', hafter', -, hgrown, -⟩ := hb.ingestData cfg origin data
    cases hafter.symm.trans hafter'
    have hgrown := hgrown (lt_of_le_sizeBound hle)
    unfold sizeBound
    omega
  cases c with
  | ingest data =>
    obtain ⟨after, hafter, -⟩ := h.ingestData cfg origin data
    simp only [ChannelBank.call, hafter]
    exact hdata h hsize (hshort data rfl) after hafter
  | next prev =>
    simp only [ChannelBank.call]
    cases hnext : bank.nextDataFrom cfg origin prev with
    | mk after =>
      cases h.nextDataFrom_effect hnext with
      | returned hread | failed hread =>
        obtain ⟨-, -, hle, -⟩ := h.read hread
        exact hle.trans hsize
      | @ingested read _ data hread hingest =>
        obtain ⟨-, hconsistent, hle, -⟩ := h.read hread
        exact hdata hconsistent (hle.trans hsize) (hshort data rfl) after hingest

theorem Consistent.run (cfg : Config) (h : bank.Consistent)
    (calls : List (L1BlockRef × BankCall)) : (bank.run cfg calls).Consistent := by
  induction calls generalizing bank with
  | nil => exact h
  | cons c calls ih => exact ih (h.call cfg c.1 c.2).1

theorem Consistent.run_size (h : bank.Consistent) (hsize : bank.storedSize ≤ sizeBound)
    (hshort : ∀ c ∈ calls, c.2.Short) : (bank.run cfg calls).storedSize ≤ sizeBound := by
  induction calls generalizing bank with
  | nil => exact hsize
  | cons c calls ih =>
    rw [forall_mem_cons] at hshort
    exact ih (h.call cfg c.1 c.2).1 (h.call_size hsize hshort.1) hshort.2

theorem Consistent.seenLog_eq (h : bank.Consistent) (calls : List (L1BlockRef × BankCall)) :
    ∃ removed, bank.channelQueue ++ seenLog cfg bank calls =
        removed ++ (bank.run cfg calls).channelQueue ∧
      (readLog cfg bank calls).Sublist removed := by
  induction calls generalizing bank with
  | nil => exact ⟨[], by simp [seenLog, ChannelBank.run], nil_sublist _⟩
  | cons c calls ih =>
    obtain ⟨hconsistent, removed, hqueue, hread⟩ := h.call cfg c.1 c.2
    obtain ⟨removed', hqueue', hread'⟩ := ih hconsistent
    refine ⟨removed ++ removed', ?_, hread.append hread'⟩
    rw [seenLog, ← append_assoc, hqueue, append_assoc, hqueue', ← append_assoc]
    rfl

def Always (cfg : Config) (calls : List (L1BlockRef × BankCall))
    (p : L1BlockRef → ChannelBank → BankCall → Prop) : Prop :=
  ∀ done c rest, calls = done ++ c :: rest → p c.1 (empty.run cfg done) c.2

/-- The origin changes only after the end of the data. -/
def Paced (cfg : Config) (calls : List (L1BlockRef × BankCall)) : Prop :=
  ∀ done c c' rest, calls = done ++ c :: c' :: rest → c.1 ≠ c'.1 →
    ((empty.run cfg done).call cfg c.1 c.2).2 = .error .eof

/-- When the origin changes, nothing is left that could be read at the old origin. -/
def Tagged (cfg : Config) (calls : List (L1BlockRef × BankCall)) : Prop :=
  ∀ done c c' rest, calls = done ++ c :: c' :: rest → c.1 ≠ c'.1 →
    ∀ id, ¬ (empty.run cfg (done ++ [c])).Readable cfg c.1 id

theorem consistent_empty : empty.Consistent := KeyedQueue.Matches.empty

theorem Paced.tagged (hpaced : Paced cfg calls) (hends : Always cfg calls fun origin bank c =>
    ∀ prev, c = .next prev → bank.EndOfData cfg origin prev) : Tagged cfg calls := by
  rintro done ⟨origin, c⟩ c' rest rfl hne id ⟨hid, ch, hch, -, hready⟩
  have heof := hpaced done (origin, c) c' rest rfl hne
  have hrun : empty.run cfg (done ++ [(origin, c)]) =
      ((empty.run cfg done).call cfg origin c).1 := by
    rw [ChannelBank.run, foldl_concat]
    rfl
  rw [hrun] at hid hch
  cases c with
  | ingest data =>
    obtain ⟨after, hafter, -⟩ := (consistent_empty.run cfg done).ingestData cfg origin data
    simp [ChannelBank.call, hafter] at heof
  | next prev =>
    have hresult : ((empty.run cfg done).nextDataFrom cfg origin prev).2 = .error .eof := by
      simp only [ChannelBank.call] at heof
      cases hnext : ((empty.run cfg done).nextDataFrom cfg origin prev).2 with
      | error =>
        rw [hnext] at heof
        cases heof
        rfl
      | ok =>
        rw [hnext] at heof
        cases heof
    have hend := hends done (origin, .next prev) (c' :: rest) rfl prev rfl hresult
    have hnot := (hend.2 id ch hid hch).1
    simp [hready] at hnot

/-- Whatever is ingested, the map and the queue agree, pruning takes no more than needed from the
front, and channels are read in the order in which they were first seen. The end of the data says
that no channel is left exactly if none is hidden behind one that is timed out; in a run without
hidden channels all data is returned at the origin at which it became readable. -/
theorem channel_bank_runs (cfg : Config) (calls : List (L1BlockRef × BankCall)) :
    Always cfg calls (fun origin bank c => bank.Consistent ∧ bank.CallKeeps cfg origin c) ∧
    (∃ removed, seenLog cfg empty calls = removed ++ (empty.run cfg calls).channelQueue ∧
      (readLog cfg empty calls).Sublist removed) ∧
    ((∀ c ∈ calls, c.2.Short) → Always cfg calls fun origin bank c => ∀ b data after,
      bank.ingested cfg origin c = some (b, data) → b.prune = .ok after →
      after.storedSize ≤ maxChannelBankSize.toNat) ∧
    Always cfg calls (fun origin bank c => ∀ prev, c = .next prev →
      (bank.EndOfData cfg origin prev ↔ ¬ bank.Hidden cfg origin prev)) ∧
    (Always cfg calls (fun origin bank c => ∀ prev, c = .next prev →
      ¬ bank.Hidden cfg origin prev) → Paced cfg calls → Tagged cfg calls) := by
  refine ⟨?_, consistent_empty.seenLog_eq calls, ?_, ?_, ?_⟩
  · intro done c rest _
    have hconsistent := consistent_empty.run cfg done
    exact ⟨hconsistent, hconsistent.callKeeps c.2⟩
  · rintro hshort done c rest rfl b data after hingested hprune
    have hconsistent := consistent_empty.run cfg done
    have hsize : (empty.run cfg done).storedSize ≤ sizeBound :=
      consistent_empty.run_size (Nat.zero_le _) fun c hc => hshort c (List.mem_append_left _ hc)
    obtain ⟨hb, hle⟩ := hconsistent.ingested hingested
    obtain ⟨after', hprune', -, -, hfits⟩ := hb.prune_eq
    cases hprune.symm.trans hprune'
    exact hfits (lt_of_le_sizeBound (hle.trans hsize))
  · intro done c rest _ prev _
    exact (consistent_empty.run cfg done).endOfData_iff
  · intro hfree hpaced
    apply hpaced.tagged
    intro done c rest hcalls prev hprev
    exact (consistent_empty.run cfg done).endOfData_iff.mpr (hfree done c rest hcalls prev hprev)

end Histories

def bankConfig : Config := { devnetConfig with channelTimeout := 50 }

def frameData (id : ChannelID) (isLast : Bool) : Bytes :=
  derivationVersion0 :: Frame.marshalBinary { id, frameNumber := 0, data := [7], isLast }

/-- Channel 1 is opened at block 1 and never finished. Channel 2 is whole at block 10. -/
def hiddenCalls : List (L1BlockRef × BankCall) :=
  [(numberedBlock 1, .next (.ok (frameData 1 false))), (numberedBlock 1, .next (.error .eof)),
    (numberedBlock 10, .next (.ok (frameData 2 true))), (numberedBlock 10, .next (.error .eof))]

def hiddenBank : ChannelBank := empty.run bankConfig hiddenCalls

def storedChannel (bank : ChannelBank) (id : ChannelID) : Channel :=
  (bank.channels.lookup id).getD (newChannel id (numberedBlock 0))

theorem lookup_storedChannel {bank : ChannelBank} {id : ChannelID}
    (h : (bank.channels.lookup id).isSome = true) :
    bank.channels.lookup id = some (bank.storedChannel id) := by
  obtain ⟨ch, hch⟩ := Option.isSome_iff_exists.mp h
  rw [storedChannel, hch]
  rfl

theorem hiddenBank_hidden : hiddenBank.Hidden bankConfig (numberedBlock 52) (.error .eof) :=
  ⟨rfl, 1, 2, [], hiddenBank.storedChannel 1, hiddenBank.storedChannel 2, by decide +kernel,
    lookup_storedChannel (by decide +kernel), by decide +kernel,
    lookup_storedChannel (by decide +kernel), by decide +kernel⟩

/-- At block 52 the first channel is dropped and the end of the data is reported, though the second
one can be read. It is returned at block 53. -/
theorem channel_hidden :
    ¬ hiddenBank.EndOfData bankConfig (numberedBlock 52) (.error .eof) ∧
    (hiddenBank.nextDataFrom bankConfig (numberedBlock 52) (.error .eof)).2 = .error .eof ∧
    (hiddenBank.nextDataFrom bankConfig (numberedBlock 52) (.error .eof)).1.Readable bankConfig
      (numberedBlock 52) 2 ∧
    ((hiddenBank.nextDataFrom bankConfig (numberedBlock 52) (.error .eof)).1.nextDataFrom bankConfig
      (numberedBlock 53) (.error .eof)).2 = .ok [7] := by
  refine ⟨hiddenBank_hidden.not_endOfData (consistent_empty.run _ _), by decide +kernel,
    ⟨by decide +kernel, _, lookup_storedChannel (by decide +kernel), by decide +kernel,
      by decide +kernel⟩, by decide +kernel⟩

def readCalls : List (L1BlockRef × BankCall) :=
  [(numberedBlock 10, .next (.ok (frameData 2 true))), (numberedBlock 10, .next (.error .eof)),
    (numberedBlock 10, .next (.error .eof)), (numberedBlock 11, .next (.error .eof))]

theorem eq_take_of_split {α : Type*} {calls done rest : List α} {c : α}
    (h : calls = done ++ c :: rest) :
    done = calls.take done.length ∧ calls[done.length]? = some c ∧
      calls[done.length + 1]? = rest.head? ∧ done.length < calls.length := by
  subst h
  cases rest <;> simp

theorem readCalls_free : Always bankConfig readCalls fun origin bank c => ∀ prev,
    c = .next prev → ¬ bank.Hidden bankConfig origin prev := by
  rintro done c rest hcalls prev - ⟨-, first, second, others, ch, ch', hqueue, -⟩
  obtain ⟨hdone, -, -, hlt⟩ := eq_take_of_split hcalls
  have hshort : ∀ i < readCalls.length,
      (empty.run bankConfig (readCalls.take i)).channelQueue.length ≤ 1 := by decide +kernel
  have hle := hshort done.length hlt
  rw [← hdone, hqueue] at hle
  simp at hle

theorem readCalls_paced : Paced bankConfig readCalls := by
  intro done c c' rest hcalls hne
  obtain ⟨hdone, hc, hc', hlt⟩ := eq_take_of_split hcalls
  have hends : ∀ i < readCalls.length, ∀ c ∈ readCalls[i]?, ∀ c' ∈ readCalls[i + 1]?,
      c.1 ≠ c'.1 → ((empty.run bankConfig (readCalls.take i)).call bankConfig c.1 c.2).2 =
        .error .eof := by decide +kernel
  rw [hdone]
  exact hends done.length hlt c hc c' hc' hne

theorem channel_bank_sample :
    readLog bankConfig empty readCalls = [2] ∧ Tagged bankConfig readCalls ∧
    Always bankConfig readCalls (fun origin bank c => ∀ b data after,
      bank.ingested bankConfig origin c = some (b, data) → b.prune = .ok after →
      after.storedSize ≤ maxChannelBankSize.toNat) := by
  obtain ⟨-, -, hfits, -, htagged⟩ := channel_bank_runs bankConfig readCalls
  refine ⟨by decide +kernel, htagged readCalls_free readCalls_paced, hfits ?_⟩
  have hlengths : ∀ c ∈ readCalls, ∀ data ∈ c.2.data?, data.length < 2 ^ 60 := by decide +kernel
  exact hlengths

end ChannelBank

namespace L1Stages

variable (cfg : Config) (inbox : InboxConfig) (txs : TxsAnswers) (s : L1Stages)

theorem nextOf_bank (datas : DataSource) :
    (s.nextOf inbox txs datas).1.bank = s.bank ∧
      (s.nextOf inbox txs datas).1.traversal = s.traversal := by
  unfold nextOf
  split <;> exact ⟨rfl, rfl⟩

theorem retrieve_bank : (s.retrieve inbox txs).1.bank = s.bank ∧
    (s.retrieve inbox txs).1.traversal.block = s.traversal.block := by
  unfold retrieve
  split
  next datas _ =>
    obtain ⟨hbank, htraversal⟩ := nextOf_bank inbox txs s datas
    exact ⟨hbank, by rw [htraversal]⟩
  next =>
    have hblock : (s.traversal.nextL1Block).1.block = s.traversal.block := by
      unfold L1Traversal.nextL1Block
      split <;> rfl
    split
    next traversal err hnext =>
      rw [hnext] at hblock
      exact ⟨rfl, hblock⟩
    next traversal next hnext =>
      rw [hnext] at hblock
      obtain ⟨hbank, htraversal⟩ := nextOf_bank inbox txs
        { s with traversal } (DataSource.new inbox txs.opened next.id)
      exact ⟨hbank, by rw [htraversal]; exact hblock⟩

/-- The bank inside the pipeline takes the call with the answer of the stage before it. -/
theorem nextData_eq : ∃ prev, ((s.nextData cfg inbox txs).1.bank, (s.nextData cfg inbox txs).2) =
      s.bank.nextDataFrom cfg s.traversal.block prev := by
  refine ⟨({ s with bank := (s.bank.read cfg s.traversal.block).1 }.retrieve inbox txs).2, ?_⟩
  unfold nextData ChannelBank.nextDataFrom
  generalize s.bank.read cfg s.traversal.block = answer
  obtain ⟨bank, result⟩ := answer
  cases result with
  | ok => rfl
  | error err =>
    cases err with
    | eof =>
      obtain ⟨hbank, hblock⟩ := retrieve_bank inbox txs { s with bank }
      dsimp only
      rw [hbank, hblock]
    | _ => rfl

end L1Stages

end Derive
