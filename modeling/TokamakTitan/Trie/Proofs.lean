import TokamakTitan.Trie.Soundness

/-! For which keys of a trie the proofs are sound and complete: the nodes on the way to a key make
up a proof, and so they do with what deceives or misleads the walk after them. -/
namespace Trie
open Checked Rlp RLPReader BytesUtils HexTrie List

variable {keccak : HashFunction}

section Forged

variable {node : Node} {key : List Nibble}

theorem passes_encode (hwf : node.WellFormed) : Passes keccak (node.encode keccak)
    (identifierOf keccak (node.encode keccak)) := by
  refine ⟨Node.length_encode_lt keccak hwf, ?_⟩
  unfold identifierOf
  split
  next hlong => rw [if_neg (by omega)]
  next hshort => rw [if_pos (by omega)]

theorem parsed_encode (hwf : node.WellFormed) (hnull : node ≠ .null) :
    parsed (node.encode keccak) = ⟨node.encode keccak, node.items keccak⟩ :=
  parsed_eq (readList_encode keccak hwf hnull)

theorem consumes_encode (hwf : node.WellFormed) (key : List Nibble) :
    Consumes (parsed (node.encode keccak)) (nibbleBytes key) (nibbleBytes key) := by
  intro word after hreading
  cases node with
  | null => cases hreading
  | leaf =>
    rw [parsed_encode hwf (by simp), reading_leaf keccak _ key hwf] at hreading
    split at hreading <;> cases hreading
  | extension =>
    rw [parsed_encode hwf (by simp), reading_extension keccak _ key hwf] at hreading
    split at hreading
    next hpath =>
      cases hreading
      have hpos := length_pos_of_ne_nil hwf.1
      have hlength := congrArg length hpath
      rw [length_take] at hlength
      rw [length_nibbleBytes, length_nibbleBytes, length_drop]
      omega
    next => split at hreading <;> cases hreading
  | branch =>
    rw [parsed_encode hwf (by simp), reading_branch] at hreading
    cases key with
    | nil => cases hreading
    | cons =>
      cases hreading
      rw [length_nibbleBytes, length_nibbleBytes]
      exact Nat.lt_succ_self _

variable {child : Node} {rest : List Nibble} {b : Bytes} {more : List Bytes}
  {answer : Option Bytes}

theorem exists_first (hwf : node.WellFormed) {i : ℕ}
    (hstep : (node.steps key)[i]? = some (child, rest))
    (hpasses : Passes keccak b (identifierOf keccak (child.encode keccak))) :
    ∃ c others, ((node.trail key).take i).map (Node.encode keccak) ++ b :: more = c :: others ∧
      Passes keccak c (identifierOf keccak (node.encode keccak)) := by
  obtain ⟨below, hsteps⟩ := node.steps_eq_cons key
  rw [hsteps] at hstep
  cases i with
  | zero =>
    cases hstep
    exact ⟨b, more, rfl, hpasses⟩
  | succ =>
    rw [Node.trail, hsteps]
    exact ⟨node.encode keccak, _, rfl, passes_encode hwf⟩

/-- The nodes on the way to a node lead there. -/
theorem reads_of_steps (hwf : node.WellFormed) {i : ℕ}
    (hstep : (node.steps key)[i]? = some (child, rest))
    (hpasses : 0 < i → Passes keccak b (identifierOf keccak (child.encode keccak)))
    (hreads : Reads keccak (b :: more) (nibbleBytes rest) answer) :
    Reads keccak (((node.trail key).take i).map (Node.encode keccak) ++ b :: more)
      (nibbleBytes key) answer := by
  induction i generalizing node key with
  | zero =>
    obtain ⟨below, hsteps⟩ := node.steps_eq_cons key
    rw [hsteps] at hstep
    cases hstep
    exact hreads
  | succ i ih =>
    have hlast := hpasses (Nat.succ_pos i)
    cases node with
    | null => cases hstep
    | leaf => cases hstep
    | extension =>
      rw [Node.steps, getElem?_cons_succ] at hstep
      split at hstep
      next hpath =>
        have hbelow := hwf.2.2.1
        have hrest := ih hbelow hstep fun _ => hlast
        obtain ⟨c, others, hlist, hfirst⟩ := exists_first hbelow hstep hlast
        rw [Node.trail, Node.steps, if_pos hpath, map_cons, take_succ_cons, map_cons, cons_append,
          ← Node.trail, hlist]
        rw [hlist] at hrest
        refine .next (readList_encode keccak hwf (by simp)) ?_ hfirst hrest
        rw [reading_extension keccak _ key hwf, if_pos hpath]
      next => cases hstep
    | branch =>
      cases key with
      | nil => cases hstep
      | cons nibble =>
        have hbelow := hwf.1 nibble
        have hrest := ih hbelow hstep fun _ => hlast
        obtain ⟨c, others, hlist, hfirst⟩ := exists_first hbelow hstep hlast
        rw [Node.trail, Node.steps, map_cons, take_succ_cons, map_cons, cons_append, ← Node.trail,
          hlist]
        rw [hlist] at hrest
        exact .next (readList_encode keccak hwf (by simp)) (reading_branch ..) hfirst hrest

/-- The nodes on the way to a key that is present show its value. -/
theorem reads_trail {value : Bytes} (hwf : node.WellFormed) (h : node.lookup key = some value) :
    Reads keccak ((node.trail key).map (Node.encode keccak)) (nibbleBytes key) (some value) := by
  induction node generalizing key with
  | null => cases h
  | leaf =>
    rw [Node.lookup] at h
    split at h
    next hpath =>
      cases h
      refine .value (readList_encode keccak hwf (by simp)) ?_ (getNodeValue_leaf keccak hwf)
      rw [reading_leaf keccak _ key hwf, if_pos (.inl hpath)]
    next => cases h
  | extension path child ih =>
    rw [Node.lookup] at h
    split at h
    next hpath =>
      have hchild := hwf.2.2.1
      have hrest := ih hchild h
      obtain ⟨below, hsteps⟩ := child.steps_eq_cons (key.drop path.length)
      rw [Node.trail, hsteps] at hrest
      rw [Node.trail, Node.steps, if_pos hpath, hsteps]
      refine .next (readList_encode keccak hwf (by simp)) ?_ (passes_encode hchild) hrest
      rw [reading_extension keccak _ key hwf, if_pos hpath]
    next => cases h
  | branch children stored ih =>
    cases key with
    | nil =>
      rw [Node.lookup, HexTrie.stored] at h
      split at h
      next => cases h
      next =>
        cases h
        exact .value (readList_encode keccak hwf (by simp)) (reading_branch ..)
          (getNodeValue_branch keccak hwf)
    | cons nibble key =>
      have hchild := hwf.1 nibble
      have hrest := ih nibble hchild h
      obtain ⟨below, hsteps⟩ := (children nibble).steps_eq_cons key
      rw [Node.trail, hsteps] at hrest
      rw [Node.trail, Node.steps, hsteps]
      exact .next (readList_encode keccak hwf (by simp)) (reading_branch ..)
        (passes_encode hchild) hrest

/-- A deceptive node before which a key ends shows a wrong value. -/
theorem exists_reads_deceptive (hwf : node.WellFormed) (h : Deceptive keccak node) :
    ∃ value, node.lookup [] ≠ some value ∧
      Reads keccak [node.encode keccak] (nibbleBytes []) (some value) := by
  cases node with
  | null => exact h.elim
  | leaf path value =>
    have hpath : [] ≠ path := Ne.symm h
    refine ⟨value, ?_, .value (readList_encode keccak hwf (by simp)) ?_
      (getNodeValue_leaf keccak hwf)⟩
    · rw [Node.lookup, if_neg hpath]
      simp
    · rw [reading_leaf keccak _ [] hwf, if_pos (.inr rfl)]
  | extension path =>
    obtain ⟨hne, hbranch, hchild, -⟩ := id hwf
    have hpath : ([] : List Nibble).take path.length ≠ path := by
      rw [take_nil]
      exact hne.symm
    refine ⟨_, ?_, .value (readList_encode keccak hwf (by simp)) ?_
      ((getNodeValue_extension keccak hbranch hchild).1 h)⟩
    · rw [Node.lookup, if_neg hpath]
      simp
    · rw [reading_extension keccak _ [] hwf, if_neg hpath, if_pos rfl]
  | branch children value =>
    refine ⟨value, ?_, .value (readList_encode keccak hwf (by simp)) (reading_branch ..)
      (getNodeValue_branch keccak hwf)⟩
    rw [Node.lookup, HexTrie.stored, if_pos (show value = [] from h)]
    simp

end Forged

section Impostors

variable {node : Node} {b : Bytes} {more : List Bytes} {key : Bytes} {answer : Option Bytes}

theorem Reads.length_items (h : Reads keccak (b :: more) key answer) :
    ∃ items, readList b = .ok items ∧ (items.length = 17 ∨ items.length = 2) := by
  have hlength {items : List Bytes} {said : Reading} (h : reading ⟨b, items⟩ key = .ok said) :
      items.length = 17 ∨ items.length = 2 := by
    unfold reading at h
    split at h
    next hbranch => exact .inl hbranch
    next =>
      split at h
      next htwo => exact .inr htwo
      next => cases h
  cases h with
  | value hread h => exact ⟨_, hread, hlength h⟩
  | absent hread h => exact ⟨_, hread, hlength h⟩
  | null hread h => exact ⟨_, hread, hlength h⟩
  | ended hread h => exact ⟨_, hread, hlength h⟩
  | next hread h => exact ⟨_, hread, hlength h⟩

theorem length_le_of_toBytes32_eq {items : List Bytes} (hread : readList b = .ok items)
    (hshort : (node.encode keccak).length < 32)
    (h : toBytes32 b = toBytes32 (node.encode keccak)) :
    (node.encode keccak).length ≤ b.length := by
  obtain ⟨first, rest, rfl, -, hlist⟩ := exists_cons_of_readList hread
  by_cases hnull : node = .null
  · rw [hnull]
    show 1 ≤ rest.length + 1
    omega
  · have hlt := length_flatten_lt (node.items keccak)
    rw [Node.encode_eq_encodeList keccak hnull] at hshort h ⊢
    rw [encodeList_short (by omega)] at h ⊢
    have hfirst := congrArg UInt8.toNat (head_toBytes32 h)
    rw [UInt8.toNat_ofNat', listOffset] at hfirst
    have hrest := hlist (node.items keccak).flatten.length (by omega) (by omega)
    rw [length_cons, length_cons]
    omega

theorem getLast?_toBytes32 (h : b.length < 32) : (toBytes32 b).getLast? = some 0 := by
  have hpad : toBytes32 b = b ++ replicate (31 - b.length) 0 ++ [0] := by
    have hzeros : 32 - b.length = 31 - b.length + 1 := by omega
    unfold toBytes32
    rw [take_append, take_of_length_le (by omega), take_replicate, min_eq_left (by omega), hzeros,
      replicate_succ', append_assoc]
  rw [hpad, getLast?_concat]

/-- Only a frail node has an impostor that is read as a node. -/
theorem Impostor.frail (h : Impostor keccak node b) (hwf : node.WellFormed)
    (hreads : Reads keccak (b :: more) key answer) : Frail keccak node := by
  have hpadded := h.toBytes32_eq
  have hlt := h.length_lt
  unfold identifierOf at hpadded
  split at hpadded
  next hshort =>
    left
    obtain ⟨items, hread, hcount⟩ := hreads.length_items
    have hle := length_le_of_toBytes32_eq hread hshort hpadded
    have hzeros := eq_append_zeros_of_toBytes32_eq (by omega) hle hpadded
    generalize hk : b.length - (node.encode keccak).length = k at hzeros
    have hpos : 0 < k := by
      by_contra hzero
      obtain rfl : k = 0 := by omega
      exact h.ne (by simpa using hzeros)
    have hnull : node ≠ .null := by
      rintro rfl
      rw [hzeros] at hread
      exact readList_null keccak items k hread
    have hpad := readList_zeros keccak hwf hnull k
    rw [← hzeros, hread] at hpad
    split at hpad
    next =>
      cases hpad
      rw [length_append, length_replicate] at hcount
      cases node with
      | null => exact absurd rfl hnull
      | branch =>
        rw [Node.length_items_branch] at hcount
        omega
      | extension path =>
        have hge := Node.length_encode_extension_ge keccak path hwf.2.1
        simp only [Node.items, length_cons, length_nil] at hcount
        omega
      | leaf path value =>
        simp only [Node.items, length_cons, length_nil] at hcount
        exact ⟨path, value, rfl, by omega⟩
    next => cases hpad
  next hlong =>
    right
    refine ⟨by omega, ?_⟩
    rw [← hpadded]
    exact getLast?_toBytes32 hlt

end Impostors

section Correct

variable {root : Node} {key : Bytes}

variable (keccak root key) in
/-- Every answer about the key is right, whatever the proof. -/
def SoundAt : Prop :=
  ∀ proof found value, get keccak key proof (keccak (root.encode keccak)) =
    .ok (found, value) → root.lookup (nibbles key) = if found then some value else none

variable (keccak root key) in
/-- On the way to the key, below the root, an impostor leads to a wrong answer. -/
def Shadowed : Prop :=
  Misled keccak (maxListLength - 1) (root.steps (nibbles key)).tail

theorem exists_frail (hwf : root.WellFormed) (h : Shadowed keccak root key) :
    ∃ node ∈ (root.trail (nibbles key)).tail, Frail keccak node := by
  obtain ⟨i, node, rest, b, more, answer, hstep, himpostor, hreads, -⟩ := h
  have hmem := mem_of_getElem? hstep
  have hnode := Node.wellFormed_of_steps hwf _ (mem_of_mem_tail hmem)
  refine ⟨node, ?_, himpostor.frail hnode hreads⟩
  rw [Node.trail, ← map_tail]
  exact mem_map.mpr ⟨_, hmem, rfl⟩

theorem get_of_elements (hwf : root.WellFormed) {more : List Bytes} {answer : Option Bytes}
    (h : Reads keccak (root.encode keccak :: more) (nibbleBytes (nibbles key)) answer)
    {proof : Bytes}
    (hproof : readList proof = .ok ((root.encode keccak :: more).map encodeString)) :
    get keccak key proof (keccak (root.encode keccak)) =
      .ok (answer.isSome, answer.getD []) := by
  rw [← toNibbles_eq] at h
  refine get_of_reads h rfl ?_ (Node.length_encode_lt keccak hwf) hproof
  rw [toNibbles_eq]
  exact consumes_encode hwf _

theorem encodes_of_mem_map {nodes : List Bytes} (hlength : ∀ node ∈ nodes, node.length < 2 ^ 64) :
    ∀ item ∈ nodes.map encodeString, ∃ kind content, Encodes item kind content := by
  intro item hitem
  obtain ⟨node, hnode, rfl⟩ := mem_map.mp hitem
  exact ⟨_, _, encodes_encodeString (hlength node hnode)⟩

theorem exists_proof (hwf : root.WellFormed) {more : List Bytes} {answer : Option Bytes}
    (h : Reads keccak (root.encode keccak :: more) (nibbleBytes (nibbles key)) answer)
    (hcount : (root.encode keccak :: more).length ≤ maxListLength) :
    ∃ proof, get keccak key proof (keccak (root.encode keccak)) =
      .ok (answer.isSome, answer.getD []) := by
  refine ⟨_, get_of_elements hwf h (readList_emptyHeader (encodes_of_mem_map ?_) ?_)⟩
  · exact forall_mem_cons.mpr ⟨Node.length_encode_lt keccak hwf, h.length_lt⟩
  · rwa [length_map]

/-- Sound proofs leave no way to a wrong answer over the nodes of the trie. -/
theorem SoundAt.eq_lookup (hsound : SoundAt keccak root key) (hwf : root.WellFormed) {i : ℕ}
    {node : Node} {rest : List Nibble} (hstep : (root.steps (nibbles key))[i]? = some (node, rest))
    {b : Bytes} {more : List Bytes} {answer : Option Bytes}
    (hfirst : if i = 0 then b = root.encode keccak else
      Passes keccak b (identifierOf keccak (node.encode keccak)))
    (hreads : Reads keccak (b :: more) (nibbleBytes rest) answer)
    (hcount : i + (b :: more).length ≤ maxListLength) : answer = node.lookup rest := by
  have hwhole := reads_of_steps hwf hstep (fun hpos => by rwa [if_neg hpos.ne'] at hfirst) hreads
  have hlength : i ≤ (root.trail (nibbles key)).length := by
    rw [Node.trail, length_map]
    exact (List.getElem?_eq_some_iff.mp hstep).1.le
  obtain ⟨others, hothers⟩ : ∃ others, ((root.trail (nibbles key)).take i).map
      (Node.encode keccak) ++ b :: more = root.encode keccak :: others := by
    obtain ⟨below, hsteps⟩ := root.steps_eq_cons (nibbles key)
    cases i with
    | zero =>
      obtain rfl : b = root.encode keccak := hfirst
      exact ⟨more, rfl⟩
    | succ =>
      rw [Node.trail, hsteps]
      exact ⟨_, rfl⟩
  have htotal : (root.encode keccak :: others).length ≤ maxListLength := by
    rwa [← hothers, length_append, length_map, length_take, min_eq_left hlength]
  rw [hothers] at hwhole
  obtain ⟨proof, hget⟩ := exists_proof hwf hwhole htotal
  have hanswer := hsound proof _ _ hget
  rw [Node.lookup_of_steps hstep] at hanswer
  cases answer with
  | none => exact hanswer.symm
  | some => exact hanswer.symm

/-- Proofs are sound exactly when the key does not end before a deceptive node and no impostor on
the way to it leads to a wrong answer. -/
theorem soundAt_iff (hideal : Ideal keccak root) (hwf : root.WellFormed) :
    SoundAt keccak root key ↔
      ¬ Deceived keccak maxListLength (root.steps (nibbles key)) ∧
        ¬ Shadowed keccak root key := by
  constructor
  · intro hsound
    constructor
    · rintro ⟨i, node, hstep, hnode, hlt⟩
      have hwfNode := Node.wellFormed_of_steps hwf _ (mem_of_getElem? hstep)
      obtain ⟨value, hne, hreads⟩ := exists_reads_deceptive hwfNode hnode
      refine hne (hsound.eq_lookup hwf hstep ?_ hreads hlt).symm
      cases i with
      | zero =>
        obtain ⟨below, hsteps⟩ := root.steps_eq_cons (nibbles key)
        rw [hsteps, getElem?_cons_zero, Option.some.injEq, Prod.mk.injEq] at hstep
        obtain ⟨rfl, -⟩ := hstep
        rfl
      | succ => exact passes_encode hwfNode
    · rintro ⟨i, node, rest, b, more, answer, hstep, himpostor, hreads, hne, hle⟩
      have hshort := himpostor.length_lt
      rw [getElem?_tail] at hstep
      refine hne (hsound.eq_lookup hwf hstep ⟨by omega, ?_⟩ hreads ?_)
      · rw [if_neg (by omega)]
        exact himpostor.toBytes32_eq
      · unfold maxListLength at hle ⊢
        omega
  · rintro ⟨hdeceived, hshadowed⟩ proof found value hget
    obtain ⟨below, hsteps⟩ := root.steps_eq_cons (nibbles key)
    have hroot : root ∈ root.trail (nibbles key) := by
      rw [Node.trail, hsteps]
      exact mem_cons_self
    have hfree := hideal.collision_free (nibbles key) root hroot
    have hnull : keccak (root.encode keccak) ≠ rlpNull :=
      hideal.not_padded [] .null mem_cons_self (show 1 < 32 by norm_num) _
    have hconsumes : ∀ b, keccak b = keccak (root.encode keccak) →
        Consumes (parsed b) (toNibbles key) (toNibbles key) := by
      intro b hb
      rw [hfree b hb, toNibbles_eq]
      exact consumes_encode hwf _
    obtain ⟨b, more, hhash, hlength, hreads⟩ := reads_of_get hconsumes hnull hget
    rw [hfree b hhash, toNibbles_eq] at hreads
    rcases reads_encode hideal hwf (Subset.refl _) hreads with heq | hwrong | hwrong
    · exact heq.symm
    · obtain ⟨i, node, hstep, hnode, hlt⟩ := hwrong
      exact absurd ⟨i, node, hstep, hnode, hlt.trans_le hlength⟩ hdeceived
    · obtain ⟨i, node, rest, b, others, answer, hstep, himpostor, hreads, hne, hle⟩ := hwrong
      rw [length_cons] at hlength
      exact absurd ⟨i, node, rest, b, others, answer, hstep, himpostor, hreads, hne, by omega⟩
        hshadowed

def encodeProof (nodes : List Bytes) : Bytes := encodeList (nodes.map encodeString)

theorem length_lt_of_flatten {nodes : List Bytes}
    (hsize : (nodes.map encodeString).flatten.length < 2 ^ 64) :
    ∀ node ∈ nodes, node.length < 2 ^ 64 := by
  intro node hnode
  have hle := (sublist_flatten_of_mem (mem_map_of_mem (f := encodeString) hnode)).length_le
  have hstring := length_le_encodeString node
  omega

variable (keccak root key) in
/-- The canonical proof of a key: the nodes on the way to it. -/
def path : List Bytes := (root.trail (nibbles key)).map (Node.encode keccak)

/-- The canonical proof of a present key is accepted when it has no more nodes than the reader
takes. -/
theorem get_path {value : Bytes} (hwf : root.WellFormed)
    (hvalue : root.lookup (nibbles key) = some value)
    (hcount : (path keccak root key).length ≤ maxListLength)
    (hsize : ((path keccak root key).map encodeString).flatten.length < 2 ^ 64) :
    get keccak key (encodeProof (path keccak root key))
      (keccak (root.encode keccak)) = .ok (true, value) := by
  have hread : readList (encodeProof (path keccak root key)) = _ :=
    readList_encodeList (encodes_of_mem_map (length_lt_of_flatten hsize)) hsize
      (by rwa [length_map])
  have hreads : Reads keccak (path keccak root key) _ _ := reads_trail hwf hvalue
  obtain ⟨more, hmore⟩ : ∃ more, path keccak root key = root.encode keccak :: more := by
    obtain ⟨below, hsteps⟩ := root.steps_eq_cons (nibbles key)
    rw [path, Node.trail, hsteps]
    exact ⟨_, rfl⟩
  rw [hmore] at hread hreads ⊢
  exact get_of_elements hwf hreads hread

end Correct

end Trie
