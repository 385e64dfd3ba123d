import TokamakTitan.Derive.FindHeads

/-! The heads that the walk back finds, against the labelled chain of the engine and the canonical
L1 chain. -/
namespace Derive

/-- L1 has no other block at the number. -/
def Plausible (l1 : L1Source) (origin : BlockID) : Prop :=
  ∀ b, l1 origin.number = .ok b → b.hash = origin.hash

/-- L1 has the block at its number. -/
def Canonical (l1 : L1Source) (origin : BlockID) : Prop :=
  ∃ b, l1 origin.number = .ok b ∧ b.hash = origin.hash

/-- What makes a view of L1 a chain: no gaps below a visible block, and parent hashes. -/
structure L1Source.Chain (l1 : L1Source) : Prop where
  visible : ∀ {m k b}, l1 m = .ok b → k ≤ m → l1 k ≠ .error .notFound
  linked : ∀ {k p c}, k < k + 1 → l1 k = .ok p → l1 (k + 1) = .ok c → c.parentHash = p.hash

section Heads

variable (cfg : Config) (l1 : L1Source) (l2 : L2Source) (block : ℕ → L2BlockRef) (f s u : ℕ)

/-- The blocks from `f` to `u` are linked, and `f`, `s` and `u` carry the labels. -/
structure LabelledChain : Prop where
  labels : currentHeads cfg l2 =
    .ok { unsafeHead := block u, safeHead := block s, finalized := block f }
  finalized_le : f ≤ s
  safe_le : s ≤ u
  number : ∀ k, f ≤ k → k ≤ u → (block k).number.toNat = k
  parent : ∀ k, f ≤ k → k < u → l2.byHash (block (k + 1)).parentHash = .ok (block k)
  ne_zero : ∀ k, f ≤ k → k ≤ u → block k ≠ L2BlockRef.zero
  origin : ∀ {k j b}, f ≤ k → k ≤ u → l1 j = .ok b → b.hash = (block k).l1Origin.hash →
    j = (block k).l1Origin.number

/-- The safe head is block `safe`, and the unsafe head is the highest block above it such that all
blocks down to the safe head are plausible. -/
structure HeadsFound (result : FindHeadsResult) (safe top : ℕ) : Prop where
  finalized : result.finalized = block f
  safeHead : result.safeHead = block safe
  safe_between : f ≤ safe ∧ safe ≤ s
  unsafeHead : result.unsafeHead = block top
  top_between : safe ≤ top ∧ top ≤ u
  allPlausible : ∀ k, safe ≤ k → k ≤ top → Plausible l1 (block k).l1Origin
  highest : ∀ k, k ≤ u → (∀ j, safe ≤ j → j ≤ k → Plausible l1 (block j).l1Origin) → k ≤ top
  ordered : result.finalized.number ≤ result.safeHead.number ∧
    result.safeHead.number ≤ result.unsafeHead.number
  ne_zero : result.finalized ≠ L2BlockRef.zero ∧ result.safeHead ≠ L2BlockRef.zero ∧
    result.unsafeHead ≠ L2BlockRef.zero
  window : result.safeHead = result.finalized ∨ ∃ t, safe ≤ t ∧ t ≤ top ∧
    Canonical l1 (block t).l1Origin ∧
    (∀ k, t < k → k ≤ top → ¬ Canonical l1 (block k).l1Origin) ∧
    (block safe).l1Origin.number.toNat + cfg.seqWindowSize.toNat < (block t).l1Origin.number.toNat

def OriginsInRange : Prop :=
  ∀ k, f ≤ k → k ≤ u →
    (block k).l1Origin.number.toNat + cfg.seqWindowSize.toNat + 1 < 2 ^ 64

/-- The highest block from `low` to `top` with a canonical L1 origin, if there is one. -/
def HighestCanonical (low top : ℕ) (highest : L2BlockRef) : Prop :=
  (highest = L2BlockRef.zero ∧
    ∀ j, low ≤ j → j ≤ top → ¬ Canonical l1 (block j).l1Origin) ∨
  ∃ t, low ≤ t ∧ t ≤ top ∧ highest = block t ∧ Canonical l1 (block t).l1Origin ∧
    ∀ j, t < j → j ≤ top → ¬ Canonical l1 (block j).l1Origin

/-- Block `top` is the candidate for the unsafe head, after the blocks from `low` on are judged. -/
structure Kept (low top : ℕ) (unsafeHead highest : L2BlockRef) : Prop where
  unsafeHead : unsafeHead = block top
  top_le : top ≤ u
  allPlausible : ∀ j, low ≤ j → j ≤ top → Plausible l1 (block j).l1Origin
  above : top = u ∨ ¬ Plausible l1 (block (top + 1)).l1Origin
  highest : HighestCanonical l1 block low top highest

/-- The walk may stop below block `k`: it is a safe block and the first of its L1 origin, and the
sequencing window of that origin has passed at the highest canonical block above. -/
def Stops (k : ℕ) : Prop :=
  k ≤ s ∧ (block k).sequenceNumber = 0 ∧ ∃ top unsafeHead highest, k ≤ top ∧
    Kept l1 block u k top unsafeHead highest ∧
    (block k).l1Origin.number.toNat + cfg.seqWindowSize.toNat < highest.l1Origin.number.toNat

/-- The candidates before block `k` is judged: those of the blocks above, or none if the next block
is not plausible. -/
def Candidates (k : ℕ) (unsafeHead highest : L2BlockRef) : Prop :=
  (unsafeHead = L2BlockRef.zero ∧ highest = L2BlockRef.zero ∧ k < u ∧
    ¬ Plausible l1 (block (k + 1)).l1Origin) ∨
  ∃ top, k ≤ top ∧ Kept l1 block u (k + 1) top unsafeHead highest

namespace HeadsWalk

def Cached (w : HeadsWalk) : Prop :=
  w.l1Block = L1BlockRef.zero ∨ w.ahead = false ∧ ∃ j, l1 j = .ok w.l1Block

def Looked (w : HeadsWalk) : Prop :=
  (w.ahead = true ∧ l1 w.n.l1Origin.number = .error .notFound) ∨
    (w.ahead = false ∧ l1 w.n.l1Origin.number = .ok w.l1Block)

structure Round (k : ℕ) (w : HeadsWalk) : Prop where
  between : f ≤ k ∧ k ≤ u
  n_eq : w.n = block k
  finalized : w.result.finalized = block f
  safeHead : w.result.safeHead = block s
  cached : w.Cached l1
  candidates : Candidates l1 block u k w.result.unsafeHead w.highestL2WithCanonicalL1Origin

end HeadsWalk

end Heads

variable {r : Except SyncError FindHeadsResult}

namespace HeadsWalk

variable {cfg : Config} {l1 : L1Source} {l2 : L2Source} {prevUnsafe : L2BlockRef}
  {w looked : HeadsWalk}

theorem judge_n (w : HeadsWalk) : w.judge.n = w.n := by
  unfold judge
  dsimp only
  split
  · rfl
  · split <;> rfl

theorem judge_finalized (w : HeadsWalk) : w.judge.result.finalized = w.result.finalized := by
  unfold judge
  dsimp only
  split
  · rfl
  · split <;> rfl

theorem judge_safeHead (w : HeadsWalk) : w.judge.result.safeHead = w.result.safeHead := by
  unfold judge
  dsimp only
  split
  · rfl
  · split <;> rfl

theorem judge_l1Block (w : HeadsWalk) : w.judge.l1Block = w.l1Block ∧ w.judge.ahead = w.ahead := by
  unfold judge
  dsimp only
  split
  · exact ⟨rfl, rfl⟩
  · split <;> exact ⟨rfl, rfl⟩

theorem lookup_eq_ok (hcached : w.Cached l1)
    (horigin : ∀ {j b}, l1 j = .ok b → b.hash = w.n.l1Origin.hash → j = w.n.l1Origin.number)
    (h : w.lookup l1 = .ok looked) :
    looked.Looked l1 ∧ looked.Cached l1 ∧ looked.n = w.n ∧ looked.result = w.result ∧
      looked.highestL2WithCanonicalL1Origin = w.highestL2WithCanonicalL1Origin := by
  unfold lookup at h
  split at h
  next =>
    split at h
    next b hb =>
      cases h
      exact ⟨.inr ⟨rfl, hb⟩, .inr ⟨rfl, _, hb⟩, rfl, rfl, rfl⟩
    next hnone =>
      cases h
      exact ⟨.inl ⟨rfl, hnone⟩, .inl rfl, rfl, rfl, rfl⟩
    next => cases h
  next hsame =>
    cases h
    rw [not_or, not_not] at hsame
    rcases hcached with hzero | ⟨hahead, j, hj⟩
    · exact absurd hzero hsame.1
    · have hnumber := horigin hj hsame.2.symm
      exact ⟨.inr ⟨hahead, hnumber ▸ hj⟩, .inr ⟨hahead, j, hj⟩, rfl, rfl, rfl⟩

theorem lookup_ne_endless : w.lookup l1 ≠ .error .endless := by
  intro h
  unfold lookup at h
  split at h
  · split at h <;> cases h
  · cases h

theorem check_ne_endless : w.check cfg prevUnsafe ≠ .error .endless := by
  intro h
  unfold check at h
  obtain ⟨-, h⟩ := of_ite_eq (by simp) h
  obtain ⟨-, h⟩ := of_ite_eq (by simp) h
  obtain ⟨-, h⟩ := of_ite_eq (by simp) h
  obtain ⟨-, h⟩ := of_ite_eq (by simp) h
  cases h

theorem parent_ne_endless : w.parent l2 ≠ .error .endless := by
  intro h
  unfold HeadsWalk.parent at h
  split at h <;> cases h

variable {parent : L2BlockRef}

theorem parent_eq_ok (h : w.parent l2 = .ok parent) : l2.byHash w.n.parentHash = .ok parent := by
  unfold HeadsWalk.parent at h
  split at h
  next => cases h
  next found hfound =>
    cases h
    exact hfound

theorem checkParent_ne_endless : w.checkParent parent ≠ .error .endless := by
  intro h
  unfold checkParent at h
  split at h
  · obtain ⟨-, h⟩ := of_ite_eq (by simp) h
    obtain ⟨-, h⟩ := of_ite_eq (by simp) h
    obtain ⟨-, h⟩ := of_ite_eq (by simp) h
    cases h
  · obtain ⟨-, h⟩ := of_ite_eq (by simp) h
    cases h

theorem round_cases {fuel : ℕ} (h : findL2HeadsFrom cfg l1 l2 prevUnsafe (fuel + 1) w = r) :
    (∃ err, r = .error err ∧ err ≠ .endless) ∨
    ∃ looked, w.lookup l1 = .ok looked ∧
      ((looked.judge.n.number = looked.judge.result.finalized.number ∧
          r = .ok (looked.judge.settle looked.judge.n)) ∨
        ∃ parent, looked.judge.n.number ≠ looked.judge.result.finalized.number ∧
          l2.byHash looked.judge.n.parentHash = .ok parent ∧
          looked.judge.checkParent parent = .ok () ∧
          ((looked.judge.ready cfg = true ∧ r = .ok (looked.judge.settle parent)) ∨
            ¬ looked.judge.ready cfg = true ∧ r = findL2HeadsFrom cfg l1 l2 prevUnsafe fuel
              { looked.judge with n := parent })) := by
  subst h
  rw [findL2HeadsFrom]
  cases hlookup : w.lookup l1 with
  | error err =>
    refine .inl ⟨err, rfl, ?_⟩
    rintro rfl
    exact lookup_ne_endless hlookup
  | ok looked =>
    rw [Checked.ok_bind]
    cases hcheck : looked.check cfg prevUnsafe with
    | error err =>
      refine .inl ⟨err, rfl, ?_⟩
      rintro rfl
      exact check_ne_endless hcheck
    | ok =>
      rw [Checked.ok_bind]
      dsimp only
      split
      next hend => exact .inr ⟨looked, rfl, .inl ⟨hend, rfl⟩⟩
      next hgo =>
        cases hparent : looked.judge.parent l2 with
        | error err =>
          refine .inl ⟨err, rfl, ?_⟩
          rintro rfl
          exact parent_ne_endless hparent
        | ok parent =>
          rw [Checked.ok_bind]
          cases hrelation : looked.judge.checkParent parent with
          | error err =>
            refine .inl ⟨err, rfl, ?_⟩
            rintro rfl
            exact checkParent_ne_endless hrelation
          | ok =>
            rw [Checked.ok_bind]
            refine .inr ⟨looked, rfl, .inr ⟨parent, hgo, parent_eq_ok hparent, hrelation, ?_⟩⟩
            split
            next hready => exact .inl ⟨hready, rfl⟩
            next hnot => exact .inr ⟨hnot, rfl⟩

theorem Looked.isPlausible_iff (h : looked.Looked l1) :
    Plausible l1 looked.n.l1Origin ↔
      (looked.ahead = true ∨ looked.l1Block.hash = looked.n.l1Origin.hash) := by
  rcases h with ⟨hahead, hnone⟩ | ⟨hahead, hget⟩
  · simp [Plausible, hahead, hnone]
  · simp [Plausible, hahead, hget]

theorem Looked.canonical_iff (h : looked.Looked l1) :
    Canonical l1 looked.n.l1Origin ↔
      (looked.ahead = false ∧ looked.l1Block.hash = looked.n.l1Origin.hash) := by
  rcases h with ⟨hahead, hnone⟩ | ⟨hahead, hget⟩
  · simp [Canonical, hahead, hnone]
  · simp [Canonical, hahead, hget]

end HeadsWalk

section Rounds

variable {cfg : Config} {l1 : L1Source} {l2 : L2Source} {block : ℕ → L2BlockRef}
  {f s u k low top : ℕ} {prevUnsafe unsafeHead highest : L2BlockRef} {w looked : HeadsWalk}

theorem Candidates.kept (h : Candidates l1 block u k unsafeHead highest) (hk : k ≤ u)
    (hne : ∀ j, k ≤ j → j ≤ u → block j ≠ L2BlockRef.zero) :
    ∃ top, k ≤ top ∧ Kept l1 block u (k + 1) top
      (if unsafeHead = L2BlockRef.zero then block k else unsafeHead) highest := by
  rcases h with ⟨rfl, rfl, hlt, hbad⟩ | ⟨top, hle, hkept⟩
  · refine ⟨k, le_refl k, ?_, hk, ?_, .inr hbad, .inl ⟨rfl, ?_⟩⟩
    · rw [if_pos rfl]
    · intro j hj hj'
      omega
    · intro j hj hj'
      omega
  · refine ⟨top, hle, ?_⟩
    have hzero : unsafeHead ≠ L2BlockRef.zero := by
      rw [hkept.unsafeHead]
      exact hne top hle hkept.top_le
    rw [if_neg hzero]
    exact hkept

theorem HighestCanonical.lower_of_not (h : HighestCanonical l1 block (k + 1) top highest)
    (hnot : ¬ Canonical l1 (block k).l1Origin) : HighestCanonical l1 block k top highest := by
  rcases h with ⟨hzero, hnone⟩ | ⟨t, hle, hrest⟩
  · refine .inl ⟨hzero, fun j hj hj' => ?_⟩
    rcases Nat.eq_or_lt_of_le hj with rfl | hlt
    · exact hnot
    · exact hnone j hlt hj'
  · exact .inr ⟨t, by omega, hrest⟩

theorem HighestCanonical.lower_of_canonical
    (h : HighestCanonical l1 block (k + 1) top highest) (hle : k ≤ top)
    (hne : ∀ j, k ≤ j → j ≤ top → block j ≠ L2BlockRef.zero)
    (hcanonical : Canonical l1 (block k).l1Origin) :
    HighestCanonical l1 block k top (if highest = L2BlockRef.zero then block k else highest) := by
  rcases h with ⟨hzero, hnone⟩ | ⟨t, hlow, htop, heq, hrest⟩
  · rw [if_pos hzero]
    exact .inr ⟨k, le_refl k, hle, rfl, hcanonical, fun j hj hj' => hnone j hj hj'⟩
  · rw [if_neg (heq ▸ hne t (by omega) htop)]
    exact .inr ⟨t, by omega, htop, heq, hrest⟩

theorem Kept.lower {highest' : L2BlockRef} (h : Kept l1 block u (k + 1) top unsafeHead highest)
    (hgood : Plausible l1 (block k).l1Origin)
    (hhighest : HighestCanonical l1 block k top highest') :
    Kept l1 block u k top unsafeHead highest' := by
  refine ⟨h.unsafeHead, h.top_le, fun j hj hj' => ?_, h.above, hhighest⟩
  rcases Nat.eq_or_lt_of_le hj with rfl | hlt
  · exact hgood
  · exact h.allPlausible j hlt hj'

theorem HighestCanonical.unique {highest' : L2BlockRef}
    (h : HighestCanonical l1 block low top highest)
    (h' : HighestCanonical l1 block low top highest') : highest = highest' := by
  rcases h with ⟨rfl, hnone⟩ | ⟨t, hlow, hle, rfl, hcanonical, habove⟩
  · rcases h' with ⟨rfl, -⟩ | ⟨t', hlow', hle', -, hcanonical', -⟩
    · rfl
    · exact absurd hcanonical' (hnone t' hlow' hle')
  · rcases h' with ⟨-, hnone'⟩ | ⟨t', hlow', hle', rfl, hcanonical', habove'⟩
    · exact absurd hcanonical (hnone' t hlow hle)
    · rcases lt_trichotomy t t' with hlt | rfl | hlt
      · exact absurd hcanonical' (habove t' hlt hle')
      · rfl
      · exact absurd hcanonical (habove' t hlt hle)

theorem Kept.highest_unique {top' : ℕ} {unsafeHead' highest' : L2BlockRef}
    (h : Kept l1 block u k top unsafeHead highest)
    (h' : Kept l1 block u k top' unsafeHead' highest') (hle : k ≤ top) (hle' : k ≤ top') :
    highest = highest' := by
  have htop : ∀ {a b : ℕ} {v x y z : L2BlockRef}, Kept l1 block u k a v x →
      Kept l1 block u k b y z → k ≤ a → b ≤ a := by
    intro a b v x y z ha hb hka
    by_contra hlt
    rcases ha.above with hu | hbad
    · have := hb.top_le
      omega
    · exact hbad (hb.allPlausible (a + 1) (by omega) (by omega))
  obtain rfl := Nat.le_antisymm (htop h' h hle') (htop h h' hle)
  exact h.highest.unique h'.highest

theorem HeadsWalk.judge_keeps (hlooked : looked.Looked l1) (hn : looked.n = block k)
    (hk : k ≤ u) (hne : ∀ j, k ≤ j → j ≤ u → block j ≠ L2BlockRef.zero)
    (hcandidates : Candidates l1 block u k looked.result.unsafeHead
      looked.highestL2WithCanonicalL1Origin)
    (hgood : Plausible l1 (block k).l1Origin) :
    ∃ top, k ≤ top ∧ Kept l1 block u k top looked.judge.result.unsafeHead
      looked.judge.highestL2WithCanonicalL1Origin := by
  obtain ⟨top, hle, hkept⟩ := hcandidates.kept hk hne
  rw [← hn] at hgood
  have hpl := hlooked.isPlausible_iff.mp hgood
  have hcan := hlooked.canonical_iff
  rw [hn] at hgood hcan
  refine ⟨top, hle, ?_⟩
  unfold judge
  dsimp only
  split
  next hahead =>
    rw [hn]
    exact hkept.lower hgood (hkept.highest.lower_of_not fun h => by
      simp [hahead] at hcan
      exact hcan h)
  next hahead =>
    rw [Bool.not_eq_true] at hahead
    have hhash : looked.l1Block.hash = looked.n.l1Origin.hash := by simpa [hahead] using hpl
    rw [if_pos hhash]
    dsimp only
    rw [hn]
    exact hkept.lower hgood (hkept.highest.lower_of_canonical hle
      (fun j hj hj' => hne j hj (hj'.trans hkept.top_le)) (hcan.mpr ⟨hahead, hn ▸ hhash⟩))

theorem HeadsWalk.judge_discards (hlooked : looked.Looked l1)
    (hbad : ¬ Plausible l1 looked.n.l1Origin) :
    looked.judge.result.unsafeHead = L2BlockRef.zero ∧
      looked.judge.highestL2WithCanonicalL1Origin = L2BlockRef.zero := by
  rw [hlooked.isPlausible_iff, not_or, Bool.not_eq_true] at hbad
  unfold judge
  dsimp only
  rw [if_neg (by simp [hbad.1]), if_neg hbad.2]
  exact ⟨rfl, rfl⟩

theorem Kept.found {result : FindHeadsResult} {safe : ℕ}
    (h : Kept l1 block u safe top result.unsafeHead highest)
    (hchain : LabelledChain cfg l1 l2 block f s u) (hfinalized : result.finalized = block f)
    (hsafeHead : result.safeHead = block safe) (hsafe : f ≤ safe ∧ safe ≤ s) (htop : safe ≤ top)
    (hwindow : result.safeHead = result.finalized ∨ ∃ t, safe ≤ t ∧ t ≤ top ∧
      Canonical l1 (block t).l1Origin ∧
      (∀ k, t < k → k ≤ top → ¬ Canonical l1 (block k).l1Origin) ∧
      (block safe).l1Origin.number.toNat + cfg.seqWindowSize.toNat <
        (block t).l1Origin.number.toNat) :
    HeadsFound cfg l1 block f s u result safe top := by
  have htop_le := h.top_le
  have hfu : f ≤ u := by omega
  have hsu : safe ≤ u := by omega
  refine ⟨hfinalized, hsafeHead, hsafe, h.unsafeHead, ⟨htop, h.top_le⟩, h.allPlausible, ?_, ?_, ?_,
    hwindow⟩
  · intro k hk hall
    by_contra hlt
    rcases h.above with htop' | hbad
    · omega
    · exact hbad (hall (top + 1) (by omega) (by omega))
  · rw [hfinalized, hsafeHead, h.unsafeHead, BitVec.le_def, BitVec.le_def,
      hchain.number f (le_refl f) hfu, hchain.number safe hsafe.1 hsu,
      hchain.number top (by omega) h.top_le]
    exact ⟨hsafe.1, htop⟩
  · rw [hfinalized, hsafeHead, h.unsafeHead]
    exact ⟨hchain.ne_zero f (le_refl f) hfu, hchain.ne_zero safe hsafe.1 hsu,
      hchain.ne_zero top (by omega) h.top_le⟩

variable {parent : L2BlockRef}

theorem checkParent_eq_ok (h : w.checkParent parent = .ok ()) :
    parent.l1Origin = w.n.l1Origin ∨ parent.l1Origin.number + 1 = w.n.l1Origin.number ∧
      (w.l1Block.hash = w.n.l1Origin.hash → w.l1Block.parentHash = parent.l1Origin.hash) := by
  unfold HeadsWalk.checkParent at h
  split at h
  next =>
    obtain ⟨hnumber, h⟩ := of_ite_eq (by simp) h
    obtain ⟨-, h⟩ := of_ite_eq (by simp) h
    obtain ⟨hparent, -⟩ := of_ite_eq (by simp) h
    refine .inr ⟨not_not.mp hnumber, fun hhash => ?_⟩
    by_contra hne
    exact hparent ⟨hhash, hne⟩
  next hsame => exact .inl (not_not.mp hsame)

theorem checkParent_number_le (h : w.checkParent parent = .ok ())
    (hrange : parent.l1Origin.number.toNat + 1 < 2 ^ 64) :
    parent.l1Origin.number.toNat ≤ w.n.l1Origin.number.toNat := by
  rcases checkParent_eq_ok h with hsame | ⟨hnumber, -⟩
  · rw [hsame]
  · bv_omega

theorem checkParent_below (hl1 : l1.Chain) (h : w.checkParent parent = .ok ())
    (hget : l1 w.n.l1Origin.number = .ok w.l1Block) (hhash : w.l1Block.hash = w.n.l1Origin.hash)
    (hrange : parent.l1Origin.number.toNat + 1 < 2 ^ 64) : Plausible l1 parent.l1Origin := by
  intro b hb
  rcases checkParent_eq_ok h with hsame | ⟨hnumber, hparent⟩
  · rw [hsame] at hb ⊢
    cases hget.symm.trans hb
    exact hhash
  · rw [← hnumber] at hget
    rw [← hl1.linked (by bv_omega) hb hget]
    exact hparent hhash

variable (hchain : LabelledChain cfg l1 l2 block f s u)
include hchain

namespace HeadsWalk

variable (hlooked : looked.Looked l1) (hround : looked.Round l1 block f s u k)
include hlooked hround

theorem Round.keeps (hgood : Plausible l1 (block k).l1Origin) :
    ∃ top, k ≤ top ∧ Kept l1 block u k top looked.judge.result.unsafeHead
      looked.judge.highestL2WithCanonicalL1Origin :=
  judge_keeps hlooked hround.n_eq hround.between.2
    (fun j hj hj' => hchain.ne_zero j (hround.between.1.trans hj) hj') hround.candidates hgood

theorem Round.kept_of_ready (hrange : OriginsInRange cfg block f u)
    (hready : looked.judge.ready cfg = true) :
    k ≤ s ∧ (block k).sequenceNumber = 0 ∧ ∃ top, k ≤ top ∧
      Kept l1 block u k top looked.judge.result.unsafeHead
        looked.judge.highestL2WithCanonicalL1Origin ∧
      (block k).l1Origin.number.toNat + cfg.seqWindowSize.toNat <
        looked.judge.highestL2WithCanonicalL1Origin.l1Origin.number.toNat := by
  obtain ⟨hfk, hku⟩ := hround.between
  have hin := hrange k hfk hku
  simp only [ready, judge_n, judge_safeHead, hround.n_eq, hround.safeHead,
    decide_eq_true_eq] at hready
  obtain ⟨hsafe, hwindow, hfirst⟩ := hready
  rw [BitVec.le_def, hchain.number k hfk hku,
    hchain.number s hchain.finalized_le hchain.safe_le] at hsafe
  have hgood : Plausible l1 (block k).l1Origin := by
    by_contra hbad
    rw [(judge_discards hlooked (hround.n_eq ▸ hbad)).2] at hwindow
    exact absurd hwindow (BitVec.not_lt_zero)
  obtain ⟨top, htop, hkept⟩ := hround.keeps hchain hlooked hgood
  exact ⟨hsafe, hfirst, top, htop, hkept, by bv_omega⟩

theorem Round.ready_of_stops (hrange : OriginsInRange cfg block f u)
    (hstop : Stops cfg l1 block s u k) : looked.judge.ready cfg = true := by
  obtain ⟨hsafe, hfirst, top, unsafeHead, highest, htop, hkept, hwindow⟩ := hstop
  obtain ⟨hfk, hku⟩ := hround.between
  have hin := hrange k hfk hku
  obtain ⟨top', htop', hkept'⟩ := hround.keeps hchain hlooked
    (hkept.allPlausible k (le_refl k) htop)
  simp only [ready, judge_n, judge_safeHead, hround.n_eq, hround.safeHead, decide_eq_true_eq]
  rw [BitVec.le_def, hchain.number k hfk hku,
    hchain.number s hchain.finalized_le hchain.safe_le, hkept'.highest_unique hkept htop' htop]
  exact ⟨hsafe, by bv_omega, hfirst⟩

omit hround in
theorem Round.ready_found (hround : looked.Round l1 block f s u (k + 1)) (hl1 : l1.Chain)
    (hrange : OriginsInRange cfg block f u) (hfk : f ≤ k)
    (hparent : looked.judge.checkParent (block k) = .ok ())
    (hready : looked.judge.ready cfg = true) :
    Stops cfg l1 block s u (k + 1) ∧
      ∃ top, HeadsFound cfg l1 block f s u (looked.judge.settle (block k)) k top := by
  obtain ⟨hsafe, hfirst, top, htop, hkept, hwindow⟩ :=
    hround.kept_of_ready hchain hlooked hrange hready
  refine ⟨⟨hsafe, hfirst, top, _, _, htop, hkept, hwindow⟩, top, ?_⟩
  have hn := hround.n_eq
  have hk : k + 1 ≤ u := hround.between.2
  have hin := hrange (k + 1) (by omega) hk
  rcases hkept.highest with ⟨hzero, -⟩ | ⟨t, hlow, hle, heq, hcanonical, habove⟩
  · rw [hzero] at hwindow
    exact absurd hwindow (Nat.not_lt_zero _)
  rw [heq] at hwindow
  -- the L1 origin is below a visible one, so it is visible and thus canonical
  have hvisible : looked.ahead = false ∧ l1 looked.n.l1Origin.number = .ok looked.l1Block := by
    rcases hlooked with ⟨-, hnone⟩ | hget
    · obtain ⟨b, hb, -⟩ := hcanonical
      rw [hn] at hnone
      exact absurd hnone (hl1.visible hb (by bv_omega))
    · exact hget
  have hhash : looked.l1Block.hash = looked.n.l1Origin.hash := by
    have := hlooked.isPlausible_iff.mp (hn ▸ hkept.allPlausible (k + 1) (le_refl _) htop)
    simpa [hvisible.1] using this
  have hkrange := hrange k hfk (by omega)
  have hless : (block k).l1Origin.number.toNat ≤ (block (k + 1)).l1Origin.number.toNat := by
    have := checkParent_number_le hparent (by omega)
    rwa [judge_n, hn] at this
  have hbelow : Plausible l1 (block k).l1Origin := by
    refine checkParent_below hl1 hparent ?_ ?_ (by omega)
    · rw [judge_n, looked.judge_l1Block.1]
      exact hvisible.2
    · rw [judge_n, looked.judge_l1Block.1]
      exact hhash
  have hkept' : Kept l1 block u k top (looked.judge.settle (block k)).unsafeHead _ :=
    hkept.lower hbelow (.inr ⟨t, by omega, hle, heq, hcanonical, habove⟩)
  exact hkept'.found hchain (looked.judge_finalized.trans hround.finalized) rfl (by omega)
    (by omega) (.inr ⟨t, by omega, hle, hcanonical, habove, by omega⟩)

theorem Round.finalized_found (hend : k = f) (hgood : Plausible l1 (block f).l1Origin) :
    ∃ top, HeadsFound cfg l1 block f s u (looked.judge.settle (block f)) f top := by
  subst hend
  obtain ⟨top, htop, hkept⟩ := hround.keeps hchain hlooked hgood
  have hkept' : Kept l1 block u k top (looked.judge.settle (block k)).unsafeHead _ := hkept
  have hsame : (looked.judge.settle (block k)).finalized = block k :=
    looked.judge_finalized.trans hround.finalized
  exact ⟨top, hkept'.found hchain hsame rfl ⟨le_refl k, hchain.finalized_le⟩ htop
    (.inl hsame.symm)⟩

omit hround in
theorem Round.descend (hround : looked.Round l1 block f s u (k + 1)) (hfk : f ≤ k) :
    HeadsWalk.Round l1 block f s u k { looked.judge with n := block k } := by
  have hku := hround.between.2
  refine ⟨by omega, rfl, looked.judge_finalized.trans hround.finalized,
    looked.judge_safeHead.trans hround.safeHead, ?_, ?_⟩
  · unfold Cached
    dsimp only
    rw [looked.judge_l1Block.1, looked.judge_l1Block.2]
    exact hround.cached
  · by_cases hgood : Plausible l1 (block (k + 1)).l1Origin
    · obtain ⟨top, htop, hkept⟩ := hround.keeps hchain hlooked hgood
      exact .inr ⟨top, by omega, hkept⟩
    · obtain ⟨hdiscarded, hhighest⟩ := judge_discards hlooked (hround.n_eq ▸ hgood)
      exact .inl ⟨hdiscarded, hhighest, by omega, hgood⟩

end HeadsWalk

theorem findL2HeadsFrom_found (hl1 : l1.Chain) (hrange : OriginsInRange cfg block f u) {fuel : ℕ}
    (hfuel : k < f + fuel) (hround : w.Round l1 block f s u k)
    (hpassed : ∀ j, k < j → j ≤ s → ¬ Stops cfg l1 block s u j)
    (h : findL2HeadsFrom cfg l1 l2 prevUnsafe fuel w = r) :
    r ≠ .error .endless ∧ ∀ result, r = .ok result →
      ((∃ k, f < k ∧ k ≤ s ∧ Stops cfg l1 block s u k) ∧
        ∃ safe top, HeadsFound cfg l1 block f s u result safe top) ∨
      ((∀ k, f < k → k ≤ s → ¬ Stops cfg l1 block s u k) ∧ result.safeHead = block f ∧
        (Plausible l1 (block f).l1Origin →
          ∃ safe top, HeadsFound cfg l1 block f s u result safe top)) := by
  induction fuel generalizing k w with
  | zero =>
    have := hround.between.1
    omega
  | succ fuel ih =>
    obtain ⟨hfk, hku⟩ := hround.between
    rcases HeadsWalk.round_cases h with ⟨err, rfl, herr⟩ | ⟨looked, hlookup, hcase⟩
    · simpa using herr
    obtain ⟨hlooked, hcached, hn, hresult, hhighest⟩ := HeadsWalk.lookup_eq_ok hround.cached
      (hround.n_eq ▸ hchain.origin hfk hku) hlookup
    replace hround : looked.Round l1 block f s u k := by
      refine ⟨hround.between, hn.trans hround.n_eq, ?_, ?_, hcached, ?_⟩
      · rw [hresult, hround.finalized]
      · rw [hresult, hround.safeHead]
      · rw [hresult, hhighest]
        exact hround.candidates
    rw [looked.judge_n, looked.judge_finalized, hround.n_eq, hround.finalized] at hcase
    rcases hcase with ⟨hend, rfl⟩ | ⟨parent, hgo, hget, hrelation, hcase⟩
    · have hkf : k = f := by
        rw [← hchain.number k hfk hku, ← hchain.number f (le_refl f) (hfk.trans hku), hend]
      refine ⟨by simp, fun result hok => .inr ⟨hkf ▸ hpassed, ?_⟩⟩
      cases hok
      rw [hkf]
      refine ⟨rfl, fun hgood => ?_⟩
      obtain ⟨top, hfound⟩ := hround.finalized_found hchain hlooked hkf hgood
      exact ⟨f, top, hfound⟩
    · have hkf : k ≠ f := by
        rintro rfl
        exact hgo rfl
      obtain ⟨j, rfl⟩ : ∃ j, k = j + 1 := ⟨k - 1, by omega⟩
      rw [hchain.parent j (by omega) (by omega)] at hget
      cases hget
      rcases hcase with ⟨hready, rfl⟩ | ⟨hnot, hnext⟩
      · obtain ⟨hstop, hfound⟩ :=
          hround.ready_found hchain hlooked hl1 hrange (by omega) hrelation hready
        refine ⟨by simp, fun result hok => .inl ⟨⟨j + 1, by omega, hstop.1, hstop⟩, ?_⟩⟩
        cases hok
        exact ⟨j, hfound⟩
      · refine ih (by omega) (hround.descend hchain hlooked (by omega)) (fun i hi hsafe hstop => ?_)
          hnext.symm
        rcases Nat.eq_or_lt_of_le hi with rfl | hlt
        · exact hnot (hround.ready_of_stops hchain hlooked hrange hstop)
        · exact hpassed i hlt hsafe hstop

omit hchain in
/-- The search ends, and it finds the right heads exactly when a block above the finalized one
stops it or the L1 origin of the finalized block is still canonical, as far as it is visible. -/
theorem findL2Heads_found_iff (hchain : LabelledChain cfg l1 l2 block f s u) (hl1 : l1.Chain)
    (hrange : OriginsInRange cfg block f u) :
    findL2Heads cfg l1 l2 ≠ .error .endless ∧
    ∀ result, findL2Heads cfg l1 l2 = .ok result →
      ((∃ safe top, HeadsFound cfg l1 block f s u result safe top) ↔
        (∃ k, f < k ∧ k ≤ s ∧ Stops cfg l1 block s u k) ∨ Plausible l1 (block f).l1Origin) := by
  have hfu : f ≤ u := hchain.finalized_le.trans hchain.safe_le
  have hstart : HeadsWalk.Round l1 block f s u u
      { result := { unsafeHead := block u, safeHead := block s, finalized := block f }
        n := block u
        highestL2WithCanonicalL1Origin := L2BlockRef.zero
        l1Block := L1BlockRef.zero
        ahead := false } := by
    refine ⟨⟨hfu, le_refl u⟩, rfl, rfl, rfl, .inl rfl, .inr ⟨u, le_refl u, rfl, le_refl u, ?_,
      .inl rfl, .inl ⟨rfl, ?_⟩⟩⟩
    · intro j hj hj'
      omega
    · intro j hj hj'
      omega
  have hnone : ∀ j, u < j → j ≤ s → ¬ Stops cfg l1 block s u j := by
    intro j hj hjs
    have := hchain.safe_le
    omega
  unfold findL2Heads
  rw [hchain.labels]
  dsimp only
  have hfuel : u < f + ((block u).number.toNat + 1) := by
    rw [hchain.number u hfu (le_refl u)]
    omega
  obtain ⟨hends, hfound⟩ := findL2HeadsFrom_found hchain hl1 hrange hfuel hstart hnone
    (Eq.refl (findL2HeadsFrom cfg l1 l2 (block u) _ _))
  refine ⟨hends, fun result hok => ?_⟩
  rcases hfound result hok with ⟨hstop, hright⟩ | ⟨hpassed, hend, hright⟩
  · exact iff_of_true hright (.inl hstop)
  · constructor
    · rintro ⟨safe, top, h⟩
      have hsafe : safe = f := by
        have hle := h.safe_between
        have hsu := hchain.safe_le
        rw [← hchain.number safe hle.1 (by omega), ← hchain.number f (le_refl f) hfu, ← h.safeHead,
          hend]
      rw [← hsafe]
      exact .inr (h.allPlausible safe (le_refl safe) h.top_between.1)
    · rintro (⟨k, hk, hks, hstop⟩ | hgood)
      · exact absurd hstop (hpassed k hk hks)
      · exact hright hgood

end Rounds

def walkOrigins : List L1BlockRef :=
  [⟨0xa0, 10, 0x9f, 1000⟩, ⟨0xa1, 11, 0xa0, 1012⟩, ⟨0xa2, 12, 0xa1, 1024⟩]

def walkL1 : L1Source := fun number =>
  if 12 < number then .error .notFound
  else match walkOrigins.find? fun b => b.number = number with
    | some b => .ok b
    | none => .error (.other "unavailable")

def walkBlock (number : ℕ) (parentHash hash : Hash) (l1Origin : BlockID) : L2BlockRef where
  hash
  number
  parentHash
  time := 1000
  l1Origin
  sequenceNumber := 0

def walkBlocks : ℕ → L2BlockRef
  | 1 => walkBlock 1 0xc0 0xc1 ⟨0xa0, 10⟩
  | 2 => walkBlock 2 0xc1 0xc2 ⟨0xa1, 11⟩
  | _ => walkBlock 3 0xc2 0xc3 ⟨0xdd, 12⟩

def walkL2 (f : ℕ) : L2Source where
  byHash h :=
    if h = 0xc1 then .ok (walkBlocks 1)
    else if h = 0xc2 then .ok (walkBlocks 2)
    else if h = 0xc3 then .ok (walkBlocks 3)
    else .error .notFound
  byLabel
    | .latest => .ok (walkBlocks 3)
    | _ => .ok (walkBlocks f)

def walkConfig : Config := { devnetConfig with genesis := ⟨⟨0x9f, 9⟩, ⟨0xc0, 0⟩⟩ }

theorem walkL1_eq_ok {number : Uint64} {b : L1BlockRef} (h : walkL1 number = .ok b) :
    ¬ 12 < number ∧ b ∈ walkOrigins ∧ b.number = number := by
  obtain ⟨hle, h⟩ := of_ite_eq (by simp) h
  split at h
  next found hfound =>
    cases h
    exact ⟨hle, List.mem_of_find?_eq_some hfound, by simpa using List.find?_some hfound⟩
  next => cases h

theorem chain_walkL1 : L1Source.Chain walkL1 := by
  constructor
  · intro m k b hm hk hnone
    have hle := (walkL1_eq_ok hm).1
    rw [walkL1, if_neg (by bv_omega)] at hnone
    split at hnone <;> cases hnone
  · intro k p c _ hp hc
    obtain ⟨-, hpmem, rfl⟩ := walkL1_eq_ok hp
    obtain ⟨-, hcmem, hnumber⟩ := walkL1_eq_ok hc
    have hlinked : ∀ p ∈ walkOrigins, ∀ c ∈ walkOrigins, c.number = p.number + 1 →
        c.parentHash = p.hash := by decide
    exact hlinked p hpmem c hcmem hnumber

theorem labelledChain_walkL2 {f : ℕ} (hf : 1 ≤ f) (hf' : f ≤ 3) :
    LabelledChain walkConfig walkL1 (walkL2 f) walkBlocks f f 3 := by
  have hcases : ∀ k, f ≤ k → k ≤ 3 → k = 1 ∨ k = 2 ∨ k = 3 := by omega
  refine ⟨rfl, le_refl f, hf', ?_, ?_, ?_, ?_⟩
  · intro k hk hk'
    rcases hcases k hk hk' with rfl | rfl | rfl <;> rfl
  · intro k hk hk'
    rcases hcases k hk (by omega) with rfl | rfl | rfl
    · rfl
    · rfl
    · omega
  · intro k hk hk'
    rcases hcases k hk hk' with rfl | rfl | rfl <;> decide
  · intro k j b hk hk' hb hhash
    obtain ⟨-, hmem, rfl⟩ := walkL1_eq_ok hb
    have horigin : ∀ k ∈ [1, 2, 3], ∀ b ∈ walkOrigins, b.hash = (walkBlocks k).l1Origin.hash →
        b.number = (walkBlocks k).l1Origin.number := by decide
    exact horigin k (by simpa using hcases k hk hk') b hmem hhash

theorem originsInRange_walkBlocks {f : ℕ} (hf : 1 ≤ f) :
    OriginsInRange walkConfig walkBlocks f 3 := by
  intro k hk hk'
  have hcases : k = 1 ∨ k = 2 ∨ k = 3 := by omega
  rcases hcases with rfl | rfl | rfl <;> decide

theorem findL2Heads_found_sample :
    ∃ safe top, HeadsFound walkConfig walkL1 walkBlocks 1 1 3
      { unsafeHead := walkBlocks 2, safeHead := walkBlocks 1, finalized := walkBlocks 1 }
      safe top := by
  have hchain := labelledChain_walkL2 (le_refl 1) (by decide)
  refine ((findL2Heads_found_iff hchain chain_walkL1 (originsInRange_walkBlocks (le_refl 1))).2 _
    (by decide +kernel)).mpr (.inr fun b hb => ?_)
  cases hb
  rfl

/-- At a finalized block whose L1 origin is not canonical, the search succeeds without an unsafe
head. -/
theorem findL2Heads_zero_head :
    LabelledChain walkConfig walkL1 (walkL2 3) walkBlocks 3 3 3 ∧ L1Source.Chain walkL1 ∧
    findL2Heads walkConfig walkL1 (walkL2 3) =
      .ok { unsafeHead := L2BlockRef.zero, safeHead := walkBlocks 3, finalized := walkBlocks 3 } ∧
    ¬ Plausible walkL1 (walkBlocks 3).l1Origin ∧
    ¬ ∃ safe top, HeadsFound walkConfig walkL1 walkBlocks 3 3 3
      { unsafeHead := L2BlockRef.zero, safeHead := walkBlocks 3, finalized := walkBlocks 3 }
      safe top := by
  refine ⟨labelledChain_walkL2 (by decide) (le_refl 3), chain_walkL1, by decide +kernel, ?_, ?_⟩
  · intro h
    exact absurd (h _ rfl) (by decide)
  · rintro ⟨safe, top, h⟩
    exact h.ne_zero.2.2 rfl

end Derive
