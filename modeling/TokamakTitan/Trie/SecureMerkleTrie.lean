import TokamakTitan.Library.Keccak
import TokamakTitan.Trie.Proofs

/-! Tries whose keys are hashed: when the proofs of the contracts are sound and complete. -/
namespace Trie
open BigEndian Checked Rlp RLPReader BytesUtils HexTrie List

structure SecureTrie where
  root : Node
  wellFormed : root.WellFormed
  hasDepth : root.HasDepth 64

/-- A hash function with the digests of a table, and one digest for all other inputs. -/
def tableHash (table : List (Bytes × ℕ)) : HashFunction where
  digest b := encode 32 ((table.lookup b).getD (2 ^ 256 - 1))
  length_digest _ := length_encode 32 _

section TableHash

variable {table : List (Bytes × ℕ)} {n : ℕ} {b : Bytes}

theorem mem_of_lookup (h : table.lookup b = some n) : (b, n) ∈ table := by
  induction table with
  | nil => cases h
  | cons entry table ih =>
    obtain ⟨a, m⟩ := entry
    rw [lookup_cons] at h
    split at h
    next heq =>
      rw [Option.some.injEq] at h
      rw [beq_iff_eq] at heq
      rw [heq, h]
      exact mem_cons_self
    next => exact mem_cons_of_mem _ (ih h)

theorem eq_of_lookup {a : Bytes} (hnodup : (table.map Prod.snd).Nodup)
    (ha : table.lookup a = some n) (hb : table.lookup b = some n) : a = b := by
  have hpairs := inj_on_of_nodup_map hnodup (mem_of_lookup ha) (mem_of_lookup hb) rfl
  exact congrArg Prod.fst hpairs

/-- A word that is not the zero padding of a null node or of a list shorter than it. -/
def Unpadded (word : Bytes) : Prop :=
  word ≠ rlpNull ∧ ∀ n < 31, word.head? = some (UInt8.ofNat (listOffset + n)) →
    word.drop (n + 1) ≠ replicate (31 - n) 0

instance (word : Bytes) : Decidable (Unpadded word) :=
  inferInstanceAs (Decidable (_ ∧ _))

theorem Unpadded.ne_toBytes32 {word : Bytes} (h : Unpadded word) {keccak : HashFunction}
    {node : Node} (hshort : (node.encode keccak).length < 32) :
    word ≠ toBytes32 (node.encode keccak) := by
  rintro rfl
  by_cases hnull : node = .null
  · rw [hnull] at h
    exact h.1 rfl
  · have hlt := length_flatten_lt (node.items keccak)
    rw [Node.encode_eq_encodeList keccak hnull] at hshort h
    rw [encodeList_short (by omega)] at h
    refine h.2 _ (by omega) rfl ?_
    rw [toBytes32, cons_append, take_succ_cons, drop_succ_cons, take_append,
      take_of_length_le (by omega), drop_left, take_replicate, min_eq_left (by omega)]

variable (hdigests : ∀ n ∈ table.map Prod.snd, n < 2 ^ 256 - 1 ∧ Unpadded (encode 32 n))
include hdigests

theorem eq_of_tableHash_eq (hnodup : (table.map Prod.snd).Nodup) {a : Bytes}
    (ha : (table.lookup a).isSome) (h : tableHash table b = tableHash table a) : b = a := by
  have hmem {b : Bytes} {n : ℕ} (h : table.lookup b = some n) : n < 2 ^ 256 - 1 :=
    (hdigests n (mem_map_of_mem (mem_of_lookup h))).1
  have hlt (b : Bytes) : (table.lookup b).getD (2 ^ 256 - 1) < 256 ^ 32 := by
    cases h : table.lookup b with
    | none => norm_num
    | some => exact lt_of_lt_of_le (hmem h) (by norm_num)
  obtain ⟨n, hn⟩ := Option.isSome_iff_exists.mp ha
  have hdigest := encode_inj_of_lt (hlt b) (hlt _) h
  rw [hn, Option.getD_some] at hdigest
  cases hb : table.lookup b with
  | none =>
    rw [hb, Option.getD_none] at hdigest
    have := hmem hn
    omega
  | some =>
    rw [hb, Option.getD_some] at hdigest
    exact eq_of_lookup hnodup hb (hdigest ▸ hn)

theorem unpadded_tableHash (b : Bytes) : Unpadded (tableHash table b) := by
  cases h : table.lookup b with
  | none =>
    show Unpadded (encode 32 ((table.lookup b).getD (2 ^ 256 - 1)))
    rw [h]
    decide +kernel
  | some n =>
    show Unpadded (encode 32 ((table.lookup b).getD (2 ^ 256 - 1)))
    rw [h]
    exact (hdigests n (mem_map_of_mem (mem_of_lookup h))).2

theorem ideal_tableHash {root : Node} (hnodup : (table.map Prod.snd).Nodup)
    (hnodes : ∀ key, ∀ node ∈ root.trail key,
      (table.lookup (node.encode (tableHash table))).isSome) :
    Ideal (tableHash table) root where
  collision_free key node hnode _ h := eq_of_tableHash_eq hdigests hnodup (hnodes key node hnode) h
  not_padded _ _ _ hshort b := (unpadded_tableHash hdigests b).ne_toBytes32 hshort

end TableHash

namespace SecureTrie

variable (keccak : HashFunction) (trie : SecureTrie)

def rootHash : Bytes := keccak (trie.root.encode keccak)

def value (key : Bytes) : Option Bytes := trie.root.lookup (nibbles (keccak key))

/-- Whatever a proof shows of a key is true. -/
def Sound : Prop :=
  ∀ key proof found result,
    Secure.get keccak key proof (trie.rootHash keccak) = .ok (found, result) →
      trie.value keccak key = if found then some result else none

/-- The canonical proof of every present key is accepted. -/
def Complete : Prop :=
  ∀ key result, trie.value keccak key = some result →
    (path keccak trie.root (keccak key)).length ≤ maxListLength →
    ((path keccak trie.root (keccak key)).map encodeString).flatten.length < 2 ^ 64 →
    Secure.get keccak key (encodeProof (path keccak trie.root (keccak key)))
      (trie.rootHash keccak) = .ok (true, result)

/-- No key of 64 nibbles ends before a deceptive node. -/
theorem not_deceived (key : Bytes) : ¬ Deceived keccak maxListLength
    (trie.root.steps (nibbles (keccak key))) := by
  rintro ⟨i, node, hstep, hnode, -⟩
  have hmem := mem_of_getElem? hstep
  have hlength : (nibbles (keccak key)).length = 64 := by
    rw [length_nibbles, keccak.length_digest]
  have hdepth : node.HasDepth 0 := Node.hasDepth_of_steps (hlength.symm ▸ trie.hasDepth) _ hmem
  have hwf : node.WellFormed := Node.wellFormed_of_steps trie.wellFormed _ hmem
  cases node with
  | null => exact hnode
  | leaf => exact hnode (length_eq_zero_iff.mp hdepth)
  | extension => exact hwf.1 (length_eq_zero_iff.mp (Nat.le_zero.mp hdepth.1))
  | branch => exact absurd hdepth.2.1 (lt_irrefl 0)

/-- Proofs are sound and complete exactly when no impostor on the way to a key leads to a wrong
answer. It takes a frail node below the root: a leaf of at most 16 bytes, which zeros can turn into
a branch, or a node whose hash ends in a zero. -/
theorem secure_proofs_correct_iff (hideal : Ideal keccak trie.root) :
    ((Sound keccak trie ∧ Complete keccak trie) ↔
        ∀ key, ¬ Shadowed keccak trie.root (keccak key)) ∧
      ∀ key, Shadowed keccak trie.root (keccak key) →
        ∃ node ∈ (trie.root.trail (nibbles (keccak key))).tail, Frail keccak node := by
  have hsound : Sound keccak trie ↔ ∀ key, ¬ Shadowed keccak trie.root (keccak key) := by
    refine forall_congr' fun key => ?_
    exact (soundAt_iff hideal trie.wellFormed).trans (and_iff_right (trie.not_deceived keccak key))
  have hcomplete : Complete keccak trie :=
    fun key result hvalue hcount hsize => get_path trie.wellFormed hvalue hcount hsize
  refine ⟨?_, fun key => exists_frail trie.wellFormed⟩
  rw [← hsound]
  exact and_iff_left hcomplete

section Twins

variable (i j : Nibble) (first second : Node)

def twins : Node :=
  .branch (fun nibble => if nibble = i then first else if nibble = j then second else .null) []

variable {i j first second}

theorem twins_cases (P : Node → Prop) (hfirst : P first) (hsecond : P second) (hnull : P .null)
    (nibble : Nibble) : P (if nibble = i then first else if nibble = j then second else .null) := by
  split
  · exact hfirst
  · split
    · exact hsecond
    · exact hnull

theorem wellFormed_twins (hij : i ≠ j) (hfirst : first.WellFormed)
    (hsecond : second.WellFormed) (hfirstNull : first ≠ .null)
    (hsecondNull : second ≠ .null) : (twins i j first second).WellFormed := by
  refine ⟨twins_cases _ hfirst hsecond trivial, by decide +kernel, i, ?_, .inr ⟨j, hij, ?_⟩⟩
  · simpa using hfirstNull
  · simpa [hij.symm] using hsecondNull

variable {path other : List Nibble} {value stored : Bytes} {key : List Nibble} {node : Node}

theorem mem_below_twins
    (h : node ∈ ((twins i j (.leaf path value) (.leaf other stored)).trail key).tail) :
    node = .leaf path value ∨ node = .leaf other stored ∨ node = .null := by
  cases key with
  | nil => cases h
  | cons nibble key =>
    change node ∈ Node.trail _ key at h
    revert h
    refine twins_cases (fun child => node ∈ child.trail key → _) ?_ ?_ ?_ nibble
    · exact fun hchild => .inl (mem_singleton.mp hchild)
    · exact fun hchild => .inr (.inl (mem_singleton.mp hchild))
    · exact fun hchild => .inr (.inr (mem_singleton.mp hchild))

theorem mem_trail_twins (h : node ∈ (twins i j (.leaf path value) (.leaf other stored)).trail key) :
    node = twins i j (.leaf path value) (.leaf other stored) ∨ node = .leaf path value ∨
      node = .leaf other stored ∨ node = .null := by
  obtain ⟨below, hsteps⟩ := (twins i j (.leaf path value) (.leaf other stored)).steps_eq_cons key
  have htrail : (twins i j (.leaf path value) (.leaf other stored)).trail key = _ :=
    congrArg (map Prod.fst) hsteps
  rcases mem_cons.mp (htrail ▸ h) with hroot | hbelow
  · exact .inl hroot
  · apply Or.inr
    apply mem_below_twins
    rw [htrail]
    exact hbelow

end Twins

/-- The hash of a key, without its first nibble. -/
def pathOf (digest : ℕ) : List Nibble := (nibbles (encode 32 digest)).tail

def digestOne : ℕ := 0x5fe7f977e71dba2ea1a68e21057beebb9be2ac30c6410aa38d4f3fbe41dcffd2

def digestTwo : ℕ := 0xf2ee15ea639b73fa3db9b34a245bdfa015c260c598b211bf05a1ecc4b3e3b4f2

def leafTwo : ℕ := 0x0db6fabdd0db9a9f7b2663f78b68dbc0e87d1b6532adc8ebf74b85555659b21a

/-- The trie of two keys: `0x01` holds `value`, and `0x02` holds `0x2a`. -/
def pairRoot (value : Bytes) : Node :=
  twins 5 15 (.leaf (pathOf digestOne) value) (.leaf (pathOf digestTwo) [0x2a])

/-- The hashes of the keys and of the nodes of `pairRoot`, where the leaf of `value` has the hash
`leaf` and the root the hash `root`. -/
def pairTable (value : Bytes) (leaf root : ℕ) : List (Bytes × ℕ) :=
  [([0x01], digestOne), ([0x02], digestTwo),
    (encodeList [encodeString (hexPrefix true (pathOf digestOne)), encodeString value], leaf),
    (encodeList [encodeString (hexPrefix true (pathOf digestTwo)), [0x2a]], leafTwo),
    (encodeList (List.replicate 5 [0x80] ++ [0xa0 :: encode 32 leaf] ++ List.replicate 9 [0x80] ++
      [0xa0 :: encode 32 leafTwo, [0x80]]), root),
    ([0x80], 0x56e81f171bcc55a6ff8345e692c0f86e5b48e01b996cadc001622fb5e363b421)]

def pairTrie (value : Bytes) (hne : value ≠ []) (hsize : value.length < 2 ^ 32) : SecureTrie where
  root := pairRoot value
  wellFormed := by
    have hvalue := length_encodeString_le (b := value) (by omega)
    have hpath : (encodeString (hexPrefix true (pathOf digestOne))).length = 33 := by
      decide +kernel
    exact wellFormed_twins (by decide) ⟨hne, by omega⟩ ⟨by decide, by decide +kernel⟩ (by simp)
      (by simp)
  hasDepth := by
    have hfirst : (pathOf digestOne).length = 63 := by decide +kernel
    have hsecond : (pathOf digestTwo).length = 63 := by decide +kernel
    exact ⟨rfl, by norm_num, twins_cases _ hfirst hsecond trivial⟩

def plainTrie : SecureTrie := pairTrie [0x07] (by decide) (by decide)

def plainHash : HashFunction :=
  tableHash (pairTable [0x07] 0x54f2a3ad757bd09ebefb7559659ef993297c64c2e70a7110653493f96df1aee4
    0x4edf3cb1e0e71b65a45f96445c8010c8198da5b5a9aedeb61404999d8d78f30d)

theorem ideal_plainTrie : Ideal plainHash plainTrie.root := by
  refine ideal_tableHash (by decide +kernel) (by decide +kernel) ?_
  intro key node hnode
  rcases mem_trail_twins hnode with rfl | rfl | rfl | rfl
  all_goals decide +kernel

theorem not_shadowed_plainTrie (key : Bytes) :
    ¬ Shadowed plainHash plainTrie.root (plainHash key) := by
  intro h
  obtain ⟨node, hnode, hfrail⟩ := exists_frail plainTrie.wellFormed h
  rcases mem_below_twins hnode with rfl | rfl | rfl
  · rcases hfrail with ⟨-, -, -, hshort⟩ | ⟨-, hzero⟩
    · exact absurd hshort (by decide +kernel)
    · exact absurd hzero (by decide +kernel)
  · rcases hfrail with ⟨-, -, -, hshort⟩ | ⟨-, hzero⟩
    · exact absurd hshort (by decide +kernel)
    · exact absurd hzero (by decide +kernel)
  · rcases hfrail with ⟨path, value, hleaf, -⟩ | ⟨hlong, -⟩
    · cases hleaf
    · exact absurd hlong (by decide +kernel)

theorem secure_proofs_correct_plain :
    Ideal plainHash plainTrie.root ∧ plainTrie.value plainHash [0x01] = some [0x07] ∧
      (∀ key, ¬ Shadowed plainHash plainTrie.root (plainHash key)) ∧
      Sound plainHash plainTrie ∧ Complete plainHash plainTrie :=
  ⟨ideal_plainTrie, by decide +kernel, not_shadowed_plainTrie,
    (secure_proofs_correct_iff plainHash plainTrie ideal_plainTrie).1.mpr not_shadowed_plainTrie⟩

/-- The hash of the leaf of the key `0x01` ends in a zero. -/
def shadowTable : List (Bytes × ℕ) :=
  pairTable [0x01, 0, 0, 0, 0, 0x13, 0x89, 0xf3]
    0xc99c33725cffb1e3de27e73358033c9ae706f7a9d4a5a6a55a60be5ec5323d00
    0xba3452f89159005a16ad58920a0eba00d982b3b79a14c3c30ebbc4c9bfbd28ff

def shadowTrie : SecureTrie :=
  pairTrie [0x01, 0, 0, 0, 0, 0x13, 0x89, 0xf3] (by decide) (by decide)

/-- The key `0x01` is present, and a proof shows that it is absent: its last element is the hash of
the leaf without the zero at its end, which is read as a leaf with another path. The hashes are
those of Keccak-256, and none of them is the zero padding of a node shorter than a word. -/
theorem present_key_denied :
    (∀ entry ∈ shadowTable, Keccak.keccak256 entry.1 = encode 32 entry.2) ∧
      Ideal (tableHash shadowTable) shadowTrie.root ∧
      (∀ b (node : Node), (node.encode (tableHash shadowTable)).length < 32 →
        tableHash shadowTable b ≠ toBytes32 (node.encode (tableHash shadowTable))) ∧
      shadowTrie.value (tableHash shadowTable) [0x01] =
        some [0x01, 0, 0, 0, 0, 0x13, 0x89, 0xf3] ∧
      Secure.get (tableHash shadowTable) [0x01]
        (encodeProof [shadowTrie.root.encode (tableHash shadowTable),
          encode 31 0xc99c33725cffb1e3de27e73358033c9ae706f7a9d4a5a6a55a60be5ec5323d])
        (shadowTrie.rootHash (tableHash shadowTable)) = .ok (false, []) := by
  have hdigests : ∀ n ∈ shadowTable.map Prod.snd, n < 2 ^ 256 - 1 ∧ Unpadded (encode 32 n) := by
    decide +kernel
  refine ⟨by decide +kernel, ideal_tableHash hdigests (by decide +kernel) ?_, ?_,
    by decide +kernel, by decide +kernel⟩
  · intro key node hnode
    rcases mem_trail_twins hnode with rfl | rfl | rfl | rfl
    all_goals decide +kernel
  · exact fun b node hshort => (unpadded_tableHash hdigests b).ne_toBytes32 hshort

end SecureTrie

end Trie
