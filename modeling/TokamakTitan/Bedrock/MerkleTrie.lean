import TokamakTitan.Trie.SecureMerkleTrie

/-! The trie library of the bedrock contracts, over keys of any lengths. Its code is that of the
earlier library, with texts of its own. A key counts as found where nothing is left of it, so that a
key which ends before a leaf's path, before an extension's path or at a branch without a value is
found as well. -/
namespace Bedrock.MerkleTrie
open BigEndian Checked Rlp HexTrie Trie Trie.RLPReader Trie.BytesUtils List

/-- The texts of the bedrock contracts where the earlier ones use other words. -/
def revertText : String → String
  | "Invalid root hash" => "MerkleTrie: invalid root hash"
  | "Invalid large internal hash" => "MerkleTrie: invalid large internal hash"
  | "Invalid internal node hash" => "MerkleTrie: invalid internal node hash"
  | "Received a node with an unknown prefix" =>
    "MerkleTrie: received a node with an unknown prefix"
  | "Received an unparseable node." => "MerkleTrie: received an unparseable node"
  | "Provided proof is invalid." => "MerkleTrie: provided proof is invalid"
  | "Invalid RLP list value." => "RLPReader: invalid RLP list value"
  | "Provided RLP list exceeds max list length." =>
    "RLPReader: provided RLP list exceeds max list length"
  | "Invalid RLP bytes value." => "RLPReader: invalid RLP bytes value"
  | "RLP item cannot be null." => "RLPReader: RLP item cannot be null"
  | "Invalid RLP short string." => "RLPReader: invalid RLP short string"
  | "Invalid RLP long string length." => "RLPReader: invalid RLP long string length"
  | "Invalid RLP long string." => "RLPReader: invalid RLP long string"
  | "Invalid RLP short list." => "RLPReader: invalid RLP short list"
  | "Invalid RLP long list length." => "RLPReader: invalid RLP long list length"
  | "Invalid RLP long list." => "RLPReader: invalid RLP long list"
  | message => message

def translate : Revert → Revert
  | .reason message => .reason (revertText message)
  | .panic code => .panic code
  | .bare => .bare

def get (keccak : HashFunction) (key proof root : Bytes) : Result (Bool × Bytes) :=
  (Trie.get keccak key proof root).mapError translate

theorem get_eq_ok {keccak : HashFunction} {key proof root : Bytes} {answer : Bool × Bytes} :
    get keccak key proof root = .ok answer ↔
      Trie.get keccak key proof root = .ok answer :=
  mapError_eq_ok

structure MixedTrie where
  root : Node
  wellFormed : root.WellFormed

namespace MixedTrie

variable (keccak : HashFunction) (trie : MixedTrie) (key : Bytes)

def rootHash : Bytes := keccak (trie.root.encode keccak)

def value : Option Bytes := trie.root.lookup (nibbles key)

def payload : ℕ := ((path keccak trie.root key).map encodeString).flatten.length

def Sound : Prop :=
  ∀ proof found result, get keccak key proof (trie.rootHash keccak) = .ok (found, result) →
      trie.value key = if found then some result else none

def Complete : Prop :=
  ∀ result, trie.value key = some result → trie.payload keccak key < 2 ^ 64 →
    get keccak key (encodeProof (path keccak trie.root key)) (trie.rootHash keccak) =
      .ok (true, result)

/-- The key is present, and its canonical proof has more nodes than the reader takes. -/
def Oversized : Prop :=
  (trie.value key).isSome ∧ trie.payload keccak key < 2 ^ 64 ∧
    maxListLength < (path keccak trie.root key).length

variable {keccak trie key}

theorem not_complete_of_oversized (h : Oversized keccak trie key) : ¬ Complete keccak trie key := by
  obtain ⟨hpresent, hsize, hcount⟩ := h
  obtain ⟨result, hvalue⟩ := Option.isSome_iff_exists.mp hpresent
  intro hcomplete
  have hget := get_eq_ok.mp (hcomplete result hvalue hsize)
  simp only [Trie.get, bind_eq_ok] at hget
  obtain ⟨nodes, hparse, -⟩ := hget
  simp only [parseProof, bind_eq_ok] at hparse
  obtain ⟨items, hitems, -⟩ := hparse
  have hlong := readList_encodeList_long (encodes_of_mem_map (length_lt_of_flatten hsize)) hsize
    (by simpa using hcount)
  rw [encodeProof, hlong] at hitems
  cases hitems

theorem complete_of_not_oversized (h : ¬ Oversized keccak trie key) : Complete keccak trie key := by
  intro result hvalue hsize
  have hcount : (path keccak trie.root key).length ≤ maxListLength := by
    by_contra hlong
    exact h ⟨by rw [hvalue]; rfl, hsize, by omega⟩
  exact get_eq_ok.mpr (get_path trie.wellFormed hvalue hcount hsize)

variable (trie key) in
/-- The proofs of a key are sound and complete exactly when the key does not end before a deceptive
node, no impostor on the way to it leads to a wrong answer, and its own proof is not too long. It
takes a frail node on the way for an impostor to do so. -/
theorem mixed_proofs_correct_iff (hideal : Ideal keccak trie.root) :
    ((Sound keccak trie key ∧ Complete keccak trie key) ↔
        ¬ Deceived keccak maxListLength (trie.root.steps (nibbles key)) ∧
          ¬ Shadowed keccak trie.root key ∧ ¬ Oversized keccak trie key) ∧
      (Shadowed keccak trie.root key →
        ∃ node ∈ (trie.root.trail (nibbles key)).tail, Frail keccak node) := by
  have hsound : Sound keccak trie key ↔ SoundAt keccak trie.root key := by
    simp only [Sound, SoundAt, get_eq_ok, rootHash, value]
  have hcomplete : Complete keccak trie key ↔ ¬ Oversized keccak trie key :=
    ⟨fun hcomplete hlong => not_complete_of_oversized hlong hcomplete, complete_of_not_oversized⟩
  refine ⟨?_, exists_frail trie.wellFormed⟩
  rw [hsound, hcomplete, soundAt_iff hideal trie.wellFormed, and_assoc]

def innerLeaf : Node := .leaf [4] [0x07]

def innerBranch : Node := .branch (fun nibble => if nibble = 3 then innerLeaf else .null) [0x2a]

def outerLeaf : Node := .leaf [3, 4] [0x09]

def outerBranch : Node := Trie.SecureTrie.twins 2 3 innerBranch outerLeaf

/-- The trie of `0x12`, `0x1234` and `0x1334`, which hold `0x2a`, `0x07` and `0x09`. -/
def nestedRoot : Node := .extension [1] outerBranch

variable {node : Node} {key : List Nibble}

theorem mem_trail_innerBranch (h : node ∈ innerBranch.trail key) :
    node = innerBranch ∨ node = innerLeaf ∨ node = .null := by
  cases key with
  | nil => exact .inl (mem_singleton.mp h)
  | cons nibble key =>
    rcases mem_cons.mp h with hroot | hchild
    · exact .inl hroot
    · change node ∈ Node.trail _ key at hchild
      beta_reduce at hchild
      split at hchild
      · exact .inr (.inl (mem_singleton.mp hchild))
      · exact .inr (.inr (mem_singleton.mp hchild))

theorem mem_trail_nestedRoot (h : node ∈ nestedRoot.trail key) :
    node = nestedRoot ∨ node = outerBranch ∨ node = outerLeaf ∨ node = innerBranch ∨
      node = innerLeaf ∨ node = .null := by
  rcases mem_cons.mp h with hroot | hbelow
  · exact .inl hroot
  rw [apply_ite (map Prod.fst)] at hbelow
  split at hbelow
  next =>
    right
    change node ∈ Node.trail _ _ at hbelow
    generalize key.drop 1 = rest at hbelow
    cases rest with
    | nil => exact .inl (mem_singleton.mp hbelow)
    | cons nibble rest =>
      rcases mem_cons.mp hbelow with hbranch | hchild
      · exact .inl hbranch
      · right
        change node ∈ Node.trail _ rest at hchild
        beta_reduce at hchild
        split at hchild
        · exact .inr (mem_trail_innerBranch hchild)
        · split at hchild
          · exact .inl (mem_singleton.mp hchild)
          · exact .inr (.inr (.inr (mem_singleton.mp hchild)))
  next => cases hbelow

def nestedTable : List (Bytes × ℕ) :=
  [([0xc2, 0x34, 0x07], 0xb0c902174c29549e8400c7ee1374eb0eb7902e4a941f1a889d50986a92627ed3),
    (encodeList (List.replicate 3 [0x80] ++ [[0xc2, 0x34, 0x07]] ++ List.replicate 12 [0x80] ++
      [[0x2a]]), 0x60924d6540e876a392247c6f8d5a4ff78a9e4b4c17cd8c4e0e7875809163db6d),
    ([0xc4, 0x82, 0x20, 0x34, 0x09],
      0xa353cfd0de3ffc8274f97e9bd2142b1d4e18ee075f8ceca32830aed56528d868),
    (encodeList (List.replicate 2 [0x80] ++
      [encodeList (List.replicate 3 [0x80] ++ [[0xc2, 0x34, 0x07]] ++ List.replicate 12 [0x80] ++
        [[0x2a]]), [0xc4, 0x82, 0x20, 0x34, 0x09]] ++ List.replicate 13 [0x80]),
      0xa951f13d6f51c5b1d8b5f0cc4932e32dbfaac329570e3c7d27dfd93a21f57006),
    (encodeList [[0x11], 0xa0 :: encode 32
      0xa951f13d6f51c5b1d8b5f0cc4932e32dbfaac329570e3c7d27dfd93a21f57006],
      0xb4c4ed8e0c44f3471643d32edd53d7798646716cb121bfbd7ee07f87ca7e9dde),
    ([0x80], 0x56e81f171bcc55a6ff8345e692c0f86e5b48e01b996cadc001622fb5e363b421)]

/-- Keccak-256 on the nodes of `nestedRoot`. -/
def nestedHash : HashFunction := tableHash nestedTable

def nestedTrie : MixedTrie where
  root := nestedRoot
  wellFormed := by
    have hinner : innerBranch.WellFormed := by
      refine ⟨fun nibble => ?_, by decide +kernel, 3, by simp [innerLeaf], .inl (by simp)⟩
      beta_reduce
      split
      · exact ⟨by simp, by decide +kernel⟩
      · trivial
    have houter : outerBranch.WellFormed :=
      Trie.SecureTrie.wellFormed_twins (by decide) hinner ⟨by simp, by decide +kernel⟩
        (by simp [innerBranch]) (by simp [outerLeaf])
    exact ⟨by simp, trivial, houter, by decide +kernel⟩

theorem ideal_nestedTrie : Ideal nestedHash nestedTrie.root := by
  refine ideal_tableHash (by decide +kernel) (by decide +kernel) ?_
  intro key node hnode
  rcases mem_trail_nestedRoot hnode with rfl | rfl | rfl | rfl | rfl | rfl
  all_goals decide +kernel

/-- The way to the key `0x12`. -/
theorem steps_nested : nestedTrie.root.steps (nibbles [0x12]) =
    [(nestedRoot, [1, 2]), (outerBranch, [2]), (innerBranch, [])] := by
  rfl

theorem not_deceived_nested :
    ¬ Deceived nestedHash maxListLength (nestedTrie.root.steps (nibbles [0x12])) := by
  rintro ⟨i, node, hstep, hnode, -⟩
  rw [steps_nested] at hstep
  have hmem := mem_of_getElem? hstep
  simp only [mem_cons, Prod.mk.injEq, reduceCtorEq, and_false, false_or, and_true,
    not_mem_nil, or_false] at hmem
  subst hmem
  cases hnode

theorem not_shadowed_nested : ¬ Shadowed nestedHash nestedTrie.root [0x12] := by
  intro h
  obtain ⟨node, hnode, hfrail⟩ := exists_frail nestedTrie.wellFormed h
  rw [Node.trail, steps_nested] at hnode
  simp only [map_cons, map_nil, tail_cons, mem_cons, not_mem_nil, or_false] at hnode
  rcases hnode with rfl | rfl
  · rcases hfrail with ⟨path, value, hleaf, -⟩ | ⟨-, hzero⟩
    · cases hleaf
    · exact absurd hzero (by decide +kernel)
  · rcases hfrail with ⟨path, value, hleaf, -⟩ | ⟨hlong, -⟩
    · cases hleaf
    · exact absurd hlong (by decide +kernel)

theorem not_oversized_nested : ¬ Oversized nestedHash nestedTrie [0x12] := by
  rintro ⟨-, -, hlong⟩
  revert hlong
  decide +kernel

theorem mixed_proofs_correct_nested :
    Ideal nestedHash nestedTrie.root ∧
      nestedTrie.value [0x12] = some [0x2a] ∧ nestedTrie.value [0x12, 0x34] = some [0x07] ∧
      Sound nestedHash nestedTrie [0x12] ∧ Complete nestedHash nestedTrie [0x12] :=
  ⟨ideal_nestedTrie, by decide +kernel, by decide +kernel,
    (mixed_proofs_correct_iff nestedTrie [0x12] ideal_nestedTrie).1.mpr
      ⟨not_deceived_nested, not_shadowed_nested, not_oversized_nested⟩⟩

/-- The key `0x13` is absent, but the nodes on the way to `0x1334` prove that it holds the value of
that key. The hashes are those of Keccak-256. -/
theorem absent_key_found :
    (∀ entry ∈ nestedTable, Keccak.keccak256 entry.1 = encode 32 entry.2) ∧
      Ideal nestedHash nestedTrie.root ∧ nestedTrie.value [0x13] = none ∧
      get nestedHash [0x13]
        (encodeProof [nestedRoot.encode nestedHash, outerBranch.encode nestedHash,
          outerLeaf.encode nestedHash])
        (nestedTrie.rootHash nestedHash) = .ok (true, [0x09]) :=
  ⟨by decide +kernel, ideal_nestedTrie, by decide +kernel, by decide +kernel⟩

end MixedTrie

end Bedrock.MerkleTrie
