import TokamakTitan.Trie.Readings

/-! Which answers proofs can show for a trie and a key of any length. The walk can be deceived by
the trie's own nodes where a key ends before them, and it can be misled by a string that passes for
a node below the root: short nodes are checked by their zero padding, so zeros may follow them, and
the hash of a long node may itself be the zero padding of a shorter string. -/
namespace Trie
open Checked Rlp RLPReader BytesUtils HexTrie List Except

section Canonical

variable (keccak : HashFunction) (encoded : Bytes) {value : Bytes} {path : List Nibble}
  (key : List Nibble) {child : Node}

theorem getNodePath_hexPrefix {terminal : Bool} {rest : List Bytes}
    (h : (encodeString (hexPrefix terminal path)).length < 2 ^ 64) :
    getNodePath ⟨encoded, encodeString (hexPrefix terminal path) :: rest⟩ =
      .ok (toNibbles (hexPrefix terminal path)) := by
  have hlength := length_le_encodeString (hexPrefix terminal path)
  unfold getNodePath
  show readBytes (encodeString (hexPrefix terminal path)) >>= _ = _
  rw [readBytes_encodes (encodes_encodeString (by omega))]
  rfl

theorem reading_leaf (hwf : (Node.leaf path value).WellFormed) :
    reading ⟨encoded, (Node.leaf path value).items keccak⟩ (nibbleBytes key) =
      .ok (if key = path ∨ key = [] then .value else .absent) := by
  obtain ⟨-, hsize⟩ := hwf
  obtain ⟨first, tail, hpath, hslice, hleaf, -⟩ := toNibbles_hexPrefix true path
  show pathReading ⟨encoded, _⟩ (nibbleBytes key) = _
  unfold pathReading
  rw [Node.items, getNodePath_hexPrefix _ (by omega), ok_bind, hpath]
  simp only [index, getElem?_cons_zero, ok_bind, hslice]
  rw [if_pos (hleaf.mpr rfl)]
  simp only [nibbleBytes_injective.eq_iff, nibbleBytes_eq_nil]
  rfl

theorem reading_extension (hwf : (Node.extension path child).WellFormed) :
    reading ⟨encoded, (Node.extension path child).items keccak⟩ (nibbleBytes key) =
      .ok (if key.take path.length = path then
        .below (identifierOf keccak (child.encode keccak)) (nibbleBytes (key.drop path.length))
      else if key = [] then .value else .absent) := by
  obtain ⟨-, -, -, hsize⟩ := hwf
  obtain ⟨first, tail, hpath, hslice, hleaf, hextension⟩ := toNibbles_hexPrefix false path
  have hnotLeaf : ¬ (first = prefixLeafEven ∨ first = prefixLeafOdd) := by
    rw [hleaf]
    exact Bool.false_ne_true
  show pathReading ⟨encoded, _⟩ (nibbleBytes key) = _
  unfold pathReading
  rw [Node.items, getNodePath_hexPrefix _ (by omega), ok_bind, hpath]
  simp only [index, getElem?_cons_zero, getElem?_cons_succ, ok_bind, hslice]
  rw [if_neg hnotLeaf, if_pos (hextension.mpr rfl), length_nibbleBytes]
  simp only [take_nibbleBytes_eq, nibbleBytes_eq_nil]
  split
  · rw [getNodeID_reference, ok_bind, drop_nibbleBytes]
    rfl
  · rfl

theorem reading_branch (children : Nibble → Node) (value : Bytes) :
    reading ⟨encoded, (Node.branch children value).items keccak⟩ (nibbleBytes key) =
      .ok (match key with
        | [] => .value
        | nibble :: rest =>
          .below (identifierOf keccak ((children nibble).encode keccak)) (nibbleBytes rest)) := by
  have hcount :
      (TrieNode.mk encoded ((Node.branch children value).items keccak)).decoded.length =
      branchNodeLength := Node.length_items_branch keccak children value
  rw [reading, if_pos hcount]
  cases key with
  | nil => rfl
  | cons nibble rest =>
    have hindex : index ((Node.branch children value).items keccak) (UInt8.ofNat nibble).toNat =
        .ok (reference keccak ((children nibble).encode keccak)) := by
      rw [toNat_ofNat_nibble, index_eq_ok, Node.items, getElem?_append_left (by simp),
        List.getElem?_ofFn]
      simp
    show branchReading _ (UInt8.ofNat nibble :: nibbleBytes rest) = _
    rw [branchReading, hindex, ok_bind, getNodeID_reference, ok_bind]
    rfl

end Canonical

section Inversion

variable {keccak : HashFunction} {b key : Bytes} {more items : List Bytes}
  {answer : Option Bytes}

theorem Reads.of_value (h : Reads keccak (b :: more) key answer)
    (hread : readList b = .ok items) (hreading : reading ⟨b, items⟩ key = .ok .value) :
    ∃ v, answer = some v ∧ getNodeValue ⟨b, items⟩ = .ok v := by
  cases h with
  | value hitems _ hvalue => cases hread.symm.trans hitems; exact ⟨_, rfl, hvalue⟩
  | absent hitems h => cases hread.symm.trans hitems; cases hreading.symm.trans h
  | null hitems h => cases hread.symm.trans hitems; cases hreading.symm.trans h
  | ended hitems h => cases hread.symm.trans hitems; cases hreading.symm.trans h
  | next hitems h => cases hread.symm.trans hitems; cases hreading.symm.trans h

theorem Reads.of_absent (h : Reads keccak (b :: more) key answer)
    (hread : readList b = .ok items) (hreading : reading ⟨b, items⟩ key = .ok .absent) :
    answer = none := by
  cases h with
  | value hitems h => cases hread.symm.trans hitems; cases hreading.symm.trans h
  | absent => rfl
  | null => rfl
  | ended hitems h => cases hread.symm.trans hitems; cases hreading.symm.trans h
  | next hitems h => cases hread.symm.trans hitems; cases hreading.symm.trans h

theorem Reads.of_below {word rest : Bytes} (h : Reads keccak (b :: more) key answer)
    (hread : readList b = .ok items) (hreading : reading ⟨b, items⟩ key = .ok (.below word rest))
    (hkey : key ≠ []) :
    (word = rlpNull ∧ answer = none) ∨ ∃ c others, more = c :: others ∧
      Passes keccak c word ∧ Reads keccak (c :: others) rest answer := by
  cases h with
  | value hitems h => cases hread.symm.trans hitems; cases hreading.symm.trans h
  | absent hitems h => cases hread.symm.trans hitems; cases hreading.symm.trans h
  | null hitems h =>
    cases hread.symm.trans hitems
    cases hreading.symm.trans h
    exact .inl ⟨rfl, rfl⟩
  | ended => exact absurd rfl hkey
  | next hitems h hpasses hrest =>
    cases hread.symm.trans hitems
    cases hreading.symm.trans h
    exact .inr ⟨_, _, rfl, hpasses, hrest⟩

end Inversion

section Conditions

variable (keccak : HashFunction)

/-- No other input has the hash of a node of the trie, and no hash is the zero padding of the null
node or of a node of the trie that is shorter than a word. -/
structure Ideal (root : Node) : Prop where
  collision_free : ∀ key, ∀ node ∈ root.trail key, ∀ b,
    keccak b = keccak (node.encode keccak) → b = node.encode keccak
  not_padded : ∀ key, ∀ node ∈ Node.null :: root.trail key,
    (node.encode keccak).length < 32 → ∀ b, keccak b ≠ toBytes32 (node.encode keccak)

/-- A node that yields a wrong value for a key which ends before it: the value of another key, the
hash of a child, or the empty string of a branch. -/
def Deceptive : Node → Prop
  | .null => False
  | .leaf path _ => path ≠ []
  | .extension _ child => 32 ≤ (child.encode keccak).length
  | .branch _ value => value = []

/-- The key ends before a deceptive node, which is one of the first `limit` on the way to it. -/
def Deceived (limit : ℕ) (steps : List (Node × List Nibble)) : Prop :=
  ∃ i node, steps[i]? = some (node, []) ∧ Deceptive keccak node ∧ i < limit

/-- A string shorter than a word that is not the encoding of a node and passes for it. -/
structure Impostor (node : Node) (b : Bytes) : Prop where
  length_lt : b.length < 32
  ne : b ≠ node.encode keccak
  toBytes32_eq : toBytes32 b = identifierOf keccak (node.encode keccak)

/-- On the way to a key an impostor, read as a node, leads to a wrong answer for what is left of the
key, with at most `limit` elements. -/
def Misled (limit : ℕ) (steps : List (Node × List Nibble)) : Prop :=
  ∃ i node rest b more answer, steps[i]? = some (node, rest) ∧ Impostor keccak node b ∧
    Reads keccak (b :: more) (nibbleBytes rest) answer ∧ answer ≠ node.lookup rest ∧
    i + (b :: more).length ≤ limit

/-- A node for which there may be impostors: a leaf that zeros can follow, or a long node whose hash
ends in a zero. -/
def Frail (node : Node) : Prop :=
  (∃ path value, node = .leaf path value ∧ (node.encode keccak).length ≤ 16) ∨
    32 ≤ (node.encode keccak).length ∧
      (keccak (node.encode keccak)).getLast? = some 0

variable {keccak}

theorem Deceived.cons {limit : ℕ} {steps : List (Node × List Nibble)}
    (h : Deceived keccak limit steps) (step : Node × List Nibble) :
    Deceived keccak (limit + 1) (step :: steps) := by
  obtain ⟨i, node, hstep, hnode, hlt⟩ := h
  exact ⟨i + 1, node, hstep, hnode, Nat.succ_lt_succ hlt⟩

theorem Misled.cons {limit : ℕ} {steps : List (Node × List Nibble)}
    (h : Misled keccak limit steps) (step : Node × List Nibble) :
    Misled keccak (limit + 1) (step :: steps) := by
  obtain ⟨i, node, rest, b, more, answer, hstep, himpostor, hreads, hne, hle⟩ := h
  exact ⟨i + 1, node, rest, b, more, answer, hstep, himpostor, hreads, hne, by omega⟩

end Conditions

section Sound

variable {keccak : HashFunction} {root : Node} {whole : List Nibble}

theorem identifierOf_ne_null (hideal : Ideal keccak root) {node : Node} (h : node ≠ .null) :
    identifierOf keccak (node.encode keccak) ≠ rlpNull := by
  intro heq
  rw [Node.encode_eq_encodeList keccak h, identifierOf] at heq
  split at heq
  next hshort =>
    have hlt := length_flatten_lt (node.items keccak)
    rw [encodeList_short (by omega), rlpNull] at heq
    have hfirst := congrArg UInt8.toNat (head_toBytes32 heq)
    rw [UInt8.toNat_ofNat', listOffset] at hfirst
    change _ = 0x80 at hfirst
    omega
  next => exact hideal.not_padded [] .null mem_cons_self (show 1 < 32 by norm_num) _ heq

theorem eq_or_impostor (hideal : Ideal keccak root) {node : Node} {b : Bytes}
    (hmem : node ∈ root.trail whole)
    (h : Passes keccak b (identifierOf keccak (node.encode keccak))) :
    b = node.encode keccak ∨ Impostor keccak node b := by
  obtain ⟨-, heq⟩ := h
  split at heq
  next hlong =>
    left
    unfold identifierOf at heq
    split at heq
    next hshort => exact absurd heq (hideal.not_padded whole node (mem_cons_of_mem _ hmem) hshort b)
    next => exact hideal.collision_free whole node hmem b heq
  next hshort =>
    by_cases hb : b = node.encode keccak
    · exact .inl hb
    · exact .inr ⟨by omega, hb, heq⟩

/-- What a proof shows that goes on with the encoding of `node`. -/
def Settled (keccak : HashFunction) (node : Node) (key : List Nibble) (more : List Bytes)
    (answer : Option Bytes) : Prop :=
  answer = node.lookup key ∨ Deceived keccak (more.length + 1) (node.steps key) ∨
    Misled keccak more.length (node.steps key).tail

/-- One step down: what is shown by a string that passes for a child is right, or the child's own
encoding shows it, or the string is an impostor. -/
theorem Settled.of_child (hideal : Ideal keccak root) {node child : Node}
    {key rest : List Nibble} {c : Bytes} {more : List Bytes} {answer : Option Bytes}
    (hsteps : node.steps key = (node, key) :: child.steps rest)
    (hlookup : node.lookup key = child.lookup rest) (hmem : node.trail key ⊆ root.trail whole)
    (hpasses : Passes keccak c (identifierOf keccak (child.encode keccak)))
    (hreads : Reads keccak (c :: more) (nibbleBytes rest) answer)
    (hchild : child.trail rest ⊆ root.trail whole →
      Reads keccak (child.encode keccak :: more) (nibbleBytes rest) answer →
      Settled keccak child rest more answer) :
    Settled keccak node key (c :: more) answer := by
  obtain ⟨below, hbelow⟩ := child.steps_eq_cons rest
  have htrail : child.trail rest ⊆ root.trail whole := by
    refine Subset.trans ?_ hmem
    rw [Node.trail, Node.trail, hsteps]
    exact subset_cons_self _ _
  have hfirst : child ∈ child.trail rest := by
    rw [Node.trail, hbelow]
    exact mem_cons_self
  unfold Settled
  rw [hsteps, hlookup, tail_cons, length_cons]
  rcases eq_or_impostor hideal (htrail hfirst) hpasses with rfl | himpostor
  · rcases hchild htrail hreads with heq | hdeceived | hmisled
    · exact .inl heq
    · exact .inr (.inl (hdeceived.cons _))
    · rw [hbelow] at hmisled ⊢
      exact .inr (.inr (hmisled.cons _))
  · by_cases heq : answer = child.lookup rest
    · exact .inl heq
    · refine .inr (.inr ⟨0, child, rest, c, more, answer, ?_, himpostor, hreads, heq, ?_⟩)
      · rw [hbelow]
        rfl
      · rw [length_cons]
        omega

theorem reads_encode (hideal : Ideal keccak root) {node : Node} {key : List Nibble}
    {more : List Bytes} {answer : Option Bytes} (hwf : node.WellFormed)
    (hmem : node.trail key ⊆ root.trail whole)
    (hreads : Reads keccak (node.encode keccak :: more) (nibbleBytes key) answer) :
    Settled keccak node key more answer := by
  induction node generalizing key more answer with
  | null =>
    have hread : readList (Node.null.encode keccak ++ replicate 0 0) = _ :=
      hreads.exists_items _ mem_cons_self
    exact absurd hread (readList_null keccak _ 0)
  | leaf path value =>
    have hread := readList_encode keccak hwf (by simp)
    have hreading := reading_leaf keccak ((Node.leaf path value).encode keccak) key hwf
    by_cases hend : key = path ∨ key = []
    · rw [if_pos hend] at hreading
      obtain ⟨v, rfl, hvalue⟩ := hreads.of_value hread hreading
      rw [getNodeValue_leaf keccak hwf, ok.injEq] at hvalue
      by_cases hpath : key = path
      · left
        rw [Node.lookup, if_pos hpath, hvalue]
      · -- the key ends before the path, and counts as found all the same
        obtain rfl := hend.resolve_left hpath
        exact .inr (.inl ⟨0, _, rfl, Ne.symm hpath, Nat.succ_pos _⟩)
    · rw [if_neg hend] at hreading
      left
      rw [hreads.of_absent hread hreading, Node.lookup, if_neg fun hpath => hend (.inl hpath)]
  | extension path child ih =>
    obtain ⟨hne, hbranch, hchild, hsize⟩ := id hwf
    have hread := readList_encode keccak hwf (by simp)
    have hreading := reading_extension keccak ((Node.extension path child).encode keccak) key
      hwf
    by_cases hpath : key.take path.length = path
    · have hkey : nibbleBytes key ≠ [] := by
        rw [Ne, nibbleBytes_eq_nil]
        rintro rfl
        exact hne (by simpa using hpath.symm)
      have hnull : child ≠ .null := by
        rintro rfl
        exact hbranch
      rw [if_pos hpath] at hreading
      rcases hreads.of_below hread hreading hkey with ⟨hword, -⟩ | ⟨c, others, rfl, hpasses, hrest⟩
      · exact absurd hword (identifierOf_ne_null hideal hnull)
      · refine Settled.of_child hideal ?_ ?_ hmem hpasses hrest (ih hchild)
        · rw [Node.steps, if_pos hpath]
        · rw [Node.lookup, if_pos hpath]
    · rw [if_neg hpath] at hreading
      by_cases hend : key = []
      · -- the item after the path counts as the value
        rw [if_pos hend] at hreading
        obtain ⟨v, rfl, hvalue⟩ := hreads.of_value hread hreading
        subst hend
        refine .inr (.inl ⟨0, _, rfl, ?_, Nat.succ_pos _⟩)
        show 32 ≤ (child.encode keccak).length
        by_contra hshort
        exact (getNodeValue_extension keccak hbranch hchild).2 (by omega) v hvalue
      · rw [if_neg hend] at hreading
        left
        rw [hreads.of_absent hread hreading, Node.lookup, if_neg hpath]
  | branch children value ih =>
    have hread := readList_encode keccak hwf (by simp)
    have hreading := reading_branch keccak ((Node.branch children value).encode keccak) key
      children value
    cases key with
    | nil =>
      obtain ⟨v, rfl, hvalue⟩ := hreads.of_value hread hreading
      rw [getNodeValue_branch keccak hwf, ok.injEq] at hvalue
      by_cases hnil : value = []
      · exact .inr (.inl ⟨0, _, rfl, hnil, Nat.succ_pos _⟩)
      · left
        rw [Node.lookup, stored, if_neg hnil, hvalue]
    | cons nibble =>
      rcases hreads.of_below hread hreading (by simp [nibbleBytes]) with
        ⟨hword, rfl⟩ | ⟨c, others, rfl, hpasses, hrest⟩
      · left
        by_cases hnull : children nibble = .null
        · rw [Node.lookup, hnull]
          rfl
        · exact absurd hword (identifierOf_ne_null hideal hnull)
      · exact Settled.of_child hideal rfl rfl hmem hpasses hrest (ih nibble (hwf.1 nibble))

end Sound

end Trie
