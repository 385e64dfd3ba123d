import TokamakTitan.Trie.Nodes

/-! What proofs can show, without the cursor of the walk: the elements of a proof are read one after
the other against the rest of the key, and the walk of the contracts gives exactly these answers. -/
namespace Trie
open Checked Rlp RLPReader BytesUtils HexTrie List Except

/-- What a node says of the rest of a key: that it holds the value, that the key is absent, or which
word stands for the next node and what is left of the key there. -/
inductive Reading where
  | value
  | absent
  | below (word rest : Bytes)
  deriving DecidableEq

def branchReading (node : TrieNode) : Bytes → Result Reading
  | [] => .ok .value
  | nibble :: rest => do
    let child ← index node.decoded nibble.toNat
    let word ← getNodeID child
    return .below word rest

def pathReading (node : TrieNode) (key : Bytes) : Result Reading := do
  let path ← getNodePath node
  let first ← index path 0
  let path := slice path (2 - first.toNat % 2)
  if first = prefixLeafEven ∨ first = prefixLeafOdd then
    return if key = path ∨ key = [] then .value else .absent
  else if first = prefixExtensionEven ∨ first = prefixExtensionOdd then
    if key.take path.length = path then
      let child ← index node.decoded 1
      let word ← getNodeID child
      return .below word (key.drop path.length)
    else return if key = [] then .value else .absent
  else throw (.reason "Received a node with an unknown prefix")

def reading (node : TrieNode) (key : Bytes) : Result Reading :=
  if node.decoded.length = branchNodeLength then branchReading node key
  else if node.decoded.length = leafOrExtensionNodeLength then pathReading node key
  else throw (.reason "Received an unparseable node.")

variable (keccak : HashFunction)

/-- The check of a node below the root. -/
def Passes (b word : Bytes) : Prop :=
  b.length < 2 ^ 64 ∧ (if 32 ≤ b.length then keccak b else toBytes32 b) = word

/-- The elements of a proof, read from the first one on, make `answer` the value of `key`. A proof
may end where the next node is null, and where nothing is left of the key. -/
inductive Reads : List Bytes → Bytes → Option Bytes → Prop
  | value {b key v items} (hread : readList b = .ok items)
      (h : reading ⟨b, items⟩ key = .ok .value) (hvalue : getNodeValue ⟨b, items⟩ = .ok v) :
      Reads [b] key (some v)
  | absent {b key items} (hread : readList b = .ok items)
      (h : reading ⟨b, items⟩ key = .ok .absent) : Reads [b] key none
  | null {b key rest items} (hread : readList b = .ok items)
      (h : reading ⟨b, items⟩ key = .ok (.below rlpNull rest)) (hkey : key ≠ []) :
      Reads [b] key none
  | ended {b word rest v items} (hread : readList b = .ok items)
      (h : reading ⟨b, items⟩ [] = .ok (.below word rest))
      (hvalue : getNodeValue ⟨b, items⟩ = .ok v) : Reads [b] [] (some v)
  | next {b c more key word rest items answer} (hread : readList b = .ok items)
      (h : reading ⟨b, items⟩ key = .ok (.below word rest)) (hpasses : Passes keccak c word)
      (hrest : Reads (c :: more) rest answer) : Reads (b :: c :: more) key answer

section Visit

variable (key : Bytes) (cursor : Cursor)

/-- The visit of a node agrees with what is read from it against the rest of the key. -/
inductive Agree : Result Visit → Result Reading → Prop
  | value {last : Cursor} (hend : last.keyIndex = key.length)
      (hlength : last.pathLength = cursor.pathLength) : Agree (.ok (.stop last)) (.ok .value)
  | absent {last : Cursor} (hlt : last.keyIndex < key.length)
      (hlength : last.pathLength = cursor.pathLength) (hnull : last.nodeID = rlpNull) :
      Agree (.ok (.stop last)) (.ok .absent)
  | below {next : Cursor} (hindex : next.keyIndex = cursor.keyIndex)
      (hlength : next.pathLength = cursor.pathLength) (hle : next.advance.keyIndex ≤ key.length) :
      Agree (.ok (.next next)) (.ok (.below next.nodeID (key.drop next.advance.keyIndex)))
  | error {e d : Revert} : Agree (.error e) (.error d)

variable {key cursor}

theorem agree_bind {α : Type} {x : Result α} {f : α → Result Visit} {g : α → Result Reading}
    (h : ∀ a, Agree key cursor (f a) (g a)) : Agree key cursor (x >>= f) (x >>= g) := by
  cases x with
  | error => exact .error
  | ok a => exact h a

variable {node : TrieNode}

theorem visitBranch_agree (h : cursor.keyIndex ≤ key.length) :
    Agree key cursor (visitBranch key node cursor)
      (branchReading node (key.drop cursor.keyIndex)) := by
  unfold visitBranch
  by_cases hend : cursor.keyIndex = key.length
  · rw [if_pos hend, drop_eq_nil_of_le hend.ge]
    exact .value hend rfl
  · have hlt : cursor.keyIndex < key.length := by omega
    have hindex : index key cursor.keyIndex = .ok key[cursor.keyIndex] :=
      index_eq_ok.mpr (getElem?_eq_getElem hlt)
    rw [if_neg hend, drop_eq_getElem_cons hlt, hindex, ok_bind]
    refine agree_bind fun child => agree_bind fun word => ?_
    exact .below rfl rfl hlt

theorem getSharedNibbleLength_eq_left (a b : Bytes) :
    getSharedNibbleLength a b = a.length ↔ b.take a.length = a := by
  induction a generalizing b with
  | nil => simp [getSharedNibbleLength]
  | cons x a ih =>
    cases b with
    | nil => simp [getSharedNibbleLength]
    | cons y =>
      by_cases hxy : x = y
      · simp [getSharedNibbleLength, hxy, ih]
      · simp [getSharedNibbleLength, hxy, Ne.symm hxy]

theorem getSharedNibbleLength_eq_both (a b : Bytes) :
    (a.length = getSharedNibbleLength a b ∧ b.length = getSharedNibbleLength a b) ↔ b = a := by
  constructor
  · rintro ⟨ha, hb⟩
    have htake := (getSharedNibbleLength_eq_left a b).mp ha.symm
    rwa [ha, ← hb, take_length] at htake
  · rintro rfl
    have hself := (getSharedNibbleLength_eq_left b b).mpr take_length
    exact ⟨hself.symm, hself.symm⟩

theorem visitLeafOrExtension_agree (h : cursor.keyIndex ≤ key.length) :
    Agree key cursor (visitLeafOrExtension key node cursor)
      (pathReading node (key.drop cursor.keyIndex)) := by
  have hlength : (key.drop cursor.keyIndex).length = key.length - cursor.keyIndex := length_drop
  have hnil : key.drop cursor.keyIndex = [] ↔ cursor.keyIndex = key.length := by
    rw [drop_eq_nil_iff]
    omega
  unfold visitLeafOrExtension pathReading
  refine agree_bind fun path => agree_bind fun first => ?_
  dsimp only
  generalize slice path (2 - first.toNat % 2) = path
  have hleft := getSharedNibbleLength_eq_left path (key.drop cursor.keyIndex)
  have hboth := getSharedNibbleLength_eq_both path (key.drop cursor.keyIndex)
  have hslice : slice key cursor.keyIndex = key.drop cursor.keyIndex := rfl
  rw [hslice]
  by_cases hleaf : first = prefixLeafEven ∨ first = prefixLeafOdd
  · rw [if_pos hleaf, if_pos hleaf]
    by_cases hmatch : key.drop cursor.keyIndex = path
    · rw [if_pos (hboth.mpr hmatch), if_pos (.inl hmatch)]
      have hshared := (hboth.mpr hmatch).2
      refine .value ?_ rfl
      show cursor.keyIndex + _ = key.length
      omega
    · rw [if_neg fun hshared => hmatch (hboth.mp hshared)]
      by_cases hend : cursor.keyIndex = key.length
      · rw [if_pos (.inr (hnil.mpr hend))]
        exact .value hend rfl
      · rw [if_neg (not_or.mpr ⟨hmatch, fun hdrop => hend (hnil.mp hdrop)⟩)]
        exact .absent (by show cursor.keyIndex < key.length; omega) rfl rfl
  · rw [if_neg hleaf, if_neg hleaf]
    by_cases hextension : first = prefixExtensionEven ∨ first = prefixExtensionOdd
    · rw [if_pos hextension, if_pos hextension]
      by_cases hmatch : (key.drop cursor.keyIndex).take path.length = path
      · rw [if_neg (not_not.mpr (hleft.mpr hmatch)), if_pos hmatch]
        refine agree_bind fun child => agree_bind fun word => ?_
        have hle := congrArg length hmatch
        rw [length_take] at hle
        rw [hleft.mpr hmatch, drop_drop]
        refine .below rfl rfl ?_
        show cursor.keyIndex + path.length ≤ key.length
        omega
      · rw [if_pos fun hshared => hmatch (hleft.mp hshared), if_neg hmatch]
        by_cases hend : cursor.keyIndex = key.length
        · rw [if_pos (hnil.mpr hend)]
          exact .value hend rfl
        · rw [if_neg fun hdrop => hend (hnil.mp hdrop)]
          exact .absent (by show cursor.keyIndex < key.length; omega) rfl rfl
    · rw [if_neg hextension, if_neg hextension]
      exact .error

theorem visit_agree (hcheck : checkNode keccak node.encoded cursor.advance = .ok ())
    (h : cursor.advance.keyIndex ≤ key.length) :
    Agree key cursor.advance (visit keccak key node cursor)
      (reading node (key.drop cursor.advance.keyIndex)) := by
  unfold visit reading
  rw [hcheck, ok_bind]
  by_cases hbranch : node.decoded.length = branchNodeLength
  · rw [if_pos hbranch, if_pos hbranch]
    exact visitBranch_agree h
  · rw [if_neg hbranch, if_neg hbranch]
    by_cases htwo : node.decoded.length = leafOrExtensionNodeLength
    · rw [if_pos htwo, if_pos htwo]
      exact visitLeafOrExtension_agree h
    · rw [if_neg htwo, if_neg htwo]
      exact .error

end Visit

section Walk

variable {keccak} {key b rest : Bytes} {cursor last : Cursor} {node : TrieNode}
  {nodes all : List TrieNode} {items elements : List Bytes} {answer : Option Bytes}

/-- What `get` answers from the last cursor of the walk over `all`. -/
def Answers (key : Bytes) (all : List TrieNode) (last : Cursor) : Option Bytes → Prop
  | none => last.keyIndex < key.length ∧ last.nodeID = rlpNull
  | some v => key.length ≤ last.keyIndex ∧ ∃ i node, last.pathLength = i + 1 ∧
      all[i]? = some node ∧ getNodeValue node = .ok v

/-- The node does not lead to one before which the whole key is still left. -/
def Consumes (node : TrieNode) (key rest : Bytes) : Prop :=
  ∀ word after, reading node rest = .ok (.below word after) → after.length < key.length

theorem length_le_of_reading {word after : Bytes}
    (h : reading node rest = .ok (.below word after)) : after.length ≤ rest.length := by
  unfold reading at h
  split at h
  next =>
    cases rest with
    | nil => cases h
    | cons =>
      simp only [branchReading, bind_eq_ok, pure_eq_ok, Reading.below.injEq] at h
      obtain ⟨-, -, -, -, -, rfl⟩ := h
      exact Nat.le_succ _
  next =>
    split at h
    next =>
      simp only [pathReading, bind_eq_ok] at h
      obtain ⟨path, -, first, -, h⟩ := h
      split at h
      next => split at h <;> cases h
      next =>
        split at h
        next =>
          split at h
          next =>
            simp only [bind_eq_ok, pure_eq_ok, Reading.below.injEq] at h
            obtain ⟨-, -, -, -, -, rfl⟩ := h
            rw [length_drop]
            omega
          next => split at h <;> cases h
        next => cases h
    next => cases h

theorem consumes_of_lt (h : rest.length < key.length) : Consumes node key rest :=
  fun _ _ hread => lt_of_le_of_lt (length_le_of_reading hread) h

theorem checkNode_passes (hpos : cursor.keyIndex ≠ 0) (hsize : b.length < 2 ^ 64) :
    checkNode keccak b cursor = .ok () ↔ Passes keccak b cursor.nodeID := by
  unfold checkNode Passes
  rw [if_neg hpos, and_iff_right hsize]
  split
  · rw [require_eq_ok]
  · rw [require_eq_ok]

theorem checkNode_of_visit {result : Visit} (h : visit keccak key node cursor = .ok result) :
    checkNode keccak node.encoded cursor.advance = .ok () := by
  unfold visit at h
  rw [bind_eq_ok] at h
  obtain ⟨⟨⟩, hcheck, -⟩ := h
  exact hcheck

theorem agree_of_visit {result : Visit} (h : visit keccak key node cursor = .ok result)
    (hle : cursor.advance.keyIndex ≤ key.length) :
    ∃ said, reading node (key.drop cursor.advance.keyIndex) = said ∧
      Agree key cursor.advance (.ok result) said :=
  ⟨_, rfl, h ▸ visit_agree keccak (checkNode_of_visit h) hle⟩

theorem walk_cons :
    walk keccak key (node :: nodes) cursor = .ok last ↔
      visit keccak key node cursor = .ok (.stop last) ∨
        ∃ next, visit keccak key node cursor = .ok (.next next) ∧
          walk keccak key nodes next = .ok last := by
  rw [walk]
  cases visit keccak key node cursor with
  | error => simp [bind, Except.bind]
  | ok result =>
    cases result with
    | next => simp [bind, Except.bind]
    | stop => simp [bind, Except.bind, pure, Except.pure]

theorem getElem?_of_drop {i : ℕ} (h : all.drop i = node :: nodes) : all[i]? = some node := by
  have hhead := congrArg List.head? h
  rwa [head?_drop] at hhead

theorem drop_succ_of_drop {i : ℕ} (h : all.drop i = node :: nodes) : all.drop (i + 1) = nodes := by
  rw [← drop_drop, h]
  rfl

theorem ne_zero_of_drop {i : ℕ} (h : (key.drop i).length < key.length) : i ≠ 0 := by
  rintro rfl
  exact lt_irrefl _ h

section Step

variable (hread : readList node.encoded = .ok node.decoded)
  (hle : cursor.advance.keyIndex ≤ key.length) (hall : all.drop cursor.pathLength = node :: nodes)
include hread hle hall

theorem reads_of_stop (hvisit : visit keccak key node cursor = .ok (.stop last))
    (hanswer : Answers key all last answer) :
    Reads keccak [node.encoded] (key.drop cursor.advance.keyIndex) answer := by
  obtain ⟨said, hreading, hagree⟩ := agree_of_visit hvisit hle
  cases hagree with
  | value hend hlength =>
    cases answer with
    | none => exact absurd hanswer.1 (by omega)
    | some =>
      obtain ⟨-, i, other, hi, hother, hvalue⟩ := hanswer
      obtain rfl : i = cursor.pathLength := Nat.succ.inj (hi.symm.trans hlength)
      rw [getElem?_of_drop hall, Option.some.injEq] at hother
      exact .value hread hreading (hother ▸ hvalue)
  | absent =>
    cases answer with
    | none => exact .absent hread hreading
    | some => exact absurd hanswer.1 (by omega)

theorem reads_of_end {next : Cursor} (hvisit : visit keccak key node cursor = .ok (.next next))
    (hanswer : Answers key all next answer) :
    Reads keccak [node.encoded] (key.drop cursor.advance.keyIndex) answer := by
  obtain ⟨said, hreading, hagree⟩ := agree_of_visit hvisit hle
  cases hagree with
  | below hindex hlength _ =>
    cases answer with
    | none =>
      obtain ⟨hlt, hnull⟩ := hanswer
      rw [hnull] at hreading
      refine .null hread hreading fun hnil => ?_
      rw [drop_eq_nil_iff] at hnil
      omega
    | some =>
      obtain ⟨hend, i, other, hi, hother, hvalue⟩ := hanswer
      obtain rfl : i = cursor.pathLength := Nat.succ.inj (hi.symm.trans hlength)
      rw [getElem?_of_drop hall, Option.some.injEq] at hother
      rw [drop_eq_nil_of_le (hindex ▸ hend)] at hreading ⊢
      exact .ended hread hreading (hother ▸ hvalue)

end Step

/-- An answer of the walk is read from the elements that it visits. -/
theorem reads_of_walk (hreads : ∀ other ∈ node :: nodes,
      readList other.encoded = .ok other.decoded ∧ other.encoded.length < 2 ^ 64)
    (hle : cursor.advance.keyIndex ≤ key.length)
    (hstep : Consumes node key (key.drop cursor.advance.keyIndex))
    (hall : all.drop cursor.pathLength = node :: nodes)
    (hwalk : walk keccak key (node :: nodes) cursor = .ok last)
    (hanswer : Answers key all last answer) :
    checkNode keccak node.encoded cursor.advance = .ok () ∧
      ∃ more, more <+: nodes.map TrieNode.encoded ∧
        Reads keccak (node.encoded :: more) (key.drop cursor.advance.keyIndex) answer := by
  have hread := (hreads node mem_cons_self).1
  induction nodes generalizing node cursor with
  | nil =>
    rcases walk_cons.mp hwalk with hstop | ⟨next, hnext, hlast⟩
    · exact ⟨checkNode_of_visit hstop, [], nil_prefix, reads_of_stop hread hle hall hstop hanswer⟩
    · cases hlast
      exact ⟨checkNode_of_visit hnext, [], nil_prefix, reads_of_end hread hle hall hnext hanswer⟩
  | cons second nodes ih =>
    rcases walk_cons.mp hwalk with hstop | ⟨next, hnext, hwalk⟩
    · exact ⟨checkNode_of_visit hstop, [], nil_prefix, reads_of_stop hread hle hall hstop hanswer⟩
    obtain ⟨said, hreading, hagree⟩ := agree_of_visit hnext hle
    cases hagree with
    | below _ hlength hnextLe =>
      have hlt := hstep _ _ hreading
      have hrest : ∀ other ∈ second :: nodes, _ := fun other hother =>
        hreads other (mem_cons_of_mem _ hother)
      have hallNext : all.drop next.pathLength = second :: nodes := by
        rw [hlength]
        exact drop_succ_of_drop hall
      obtain ⟨hsecond, more, hmore, hreads⟩ := ih hrest hnextLe (consumes_of_lt hlt) hallNext hwalk
        (hrest second mem_cons_self).1
      refine ⟨checkNode_of_visit hnext, second.encoded :: more, ?_, .next hread hreading ?_ hreads⟩
      · rw [map_cons, cons_prefix_cons]
        exact ⟨rfl, hmore⟩
      · exact (checkNode_passes (ne_zero_of_drop hlt) (hrest second mem_cons_self).2).mp hsecond

/-- An element as the library parses it. -/
def parsed (b : Bytes) : TrieNode := ⟨b, (readList b).toOption.getD []⟩

theorem parsed_eq (h : readList b = .ok items) : parsed b = ⟨b, items⟩ := by
  rw [parsed, h]
  rfl

theorem Reads.exists_items (h : Reads keccak elements rest answer) :
    ∀ b ∈ elements, readList (parsed b).encoded = .ok (parsed b).decoded := by
  have hparsed {b : Bytes} {items : List Bytes} (h : readList b = .ok items) :
      readList (parsed b).encoded = .ok (parsed b).decoded := by
    rw [parsed_eq h]
    exact h
  induction h with
  | value hread => exact forall_mem_singleton.mpr (hparsed hread)
  | absent hread => exact forall_mem_singleton.mpr (hparsed hread)
  | null hread => exact forall_mem_singleton.mpr (hparsed hread)
  | ended hread => exact forall_mem_singleton.mpr (hparsed hread)
  | next hread _ _ _ ih => exact forall_mem_cons.mpr ⟨hparsed hread, ih⟩

theorem agree_of_reading {said : Result Reading} (hread : readList b = .ok items)
    (h : reading ⟨b, items⟩ rest = said)
    (hcheck : checkNode keccak b cursor.advance = .ok ())
    (hle : cursor.advance.keyIndex ≤ key.length)
    (hdrop : key.drop cursor.advance.keyIndex = rest) :
    ∃ result, visit keccak key (parsed b) cursor = result ∧
      Agree key cursor.advance result said := by
  rw [← h, ← hdrop, parsed_eq hread]
  exact ⟨_, rfl, visit_agree keccak hcheck hle⟩

/-- The walk over elements that read as an answer gives the answer. -/
theorem walk_of_reads (h : Reads keccak elements rest answer)
    (hdrop : key.drop cursor.advance.keyIndex = rest)
    (hle : cursor.advance.keyIndex ≤ key.length)
    (hall : all.drop cursor.pathLength = elements.map parsed)
    (hfirst : ∀ b ∈ elements.head?, Consumes (parsed b) key rest ∧
      checkNode keccak b cursor.advance = .ok ()) :
    ∃ last, walk keccak key (elements.map parsed) cursor = .ok last ∧
      Answers key all last answer := by
  induction h generalizing cursor with
  | @value b rest v items hread hreading hvalue =>
    obtain ⟨result, hvisit, hagree⟩ :=
      agree_of_reading hread hreading (hfirst b rfl).2 hle hdrop
    cases hagree with
    | value hend hlength =>
      exact ⟨_, walk_cons.mpr (.inl hvisit), hend.ge, cursor.pathLength, _, hlength,
        getElem?_of_drop hall, parsed_eq hread ▸ hvalue⟩
  | @absent b rest items hread hreading =>
    obtain ⟨result, hvisit, hagree⟩ :=
      agree_of_reading hread hreading (hfirst b rfl).2 hle hdrop
    cases hagree with
    | absent hlt hlength hnull => exact ⟨_, walk_cons.mpr (.inl hvisit), hlt, hnull⟩
  | @null b rest after items hread hreading hkey =>
    obtain ⟨result, hvisit, hagree⟩ :=
      agree_of_reading hread hreading (hfirst b rfl).2 hle hdrop
    generalize hword : rlpNull = word at hagree
    cases hagree with
    | below =>
      rw [← hdrop, Ne, drop_eq_nil_iff] at hkey
      exact ⟨_, walk_cons.mpr (.inr ⟨_, hvisit, rfl⟩), by omega, hword.symm⟩
  | @ended b word after v items hread hreading hvalue =>
    obtain ⟨result, hvisit, hagree⟩ :=
      agree_of_reading hread hreading (hfirst b rfl).2 hle hdrop
    rw [drop_eq_nil_iff] at hdrop
    cases hagree with
    | below hindex hlength =>
      exact ⟨_, walk_cons.mpr (.inr ⟨_, hvisit, rfl⟩), by omega, cursor.pathLength, _, hlength,
        getElem?_of_drop hall, parsed_eq hread ▸ hvalue⟩
  | @next b c more rest word after items answer hread hreading hpasses _ ih =>
    obtain ⟨hconsumes, hcheck⟩ := hfirst b rfl
    have hlt := hconsumes word after (parsed_eq hread ▸ hreading)
    obtain ⟨result, hvisit, hagree⟩ := agree_of_reading hread hreading hcheck hle hdrop
    cases hagree with
    | @below next hindex hlength hnext =>
      have hfirst : ∀ d ∈ (c :: more).head?, Consumes (parsed d) key
          (key.drop next.advance.keyIndex) ∧ checkNode keccak d next.advance = .ok () := by
        rintro d ⟨⟩
        exact ⟨consumes_of_lt hlt, (checkNode_passes (ne_zero_of_drop hlt) hpasses.1).mpr hpasses⟩
      have hallNext : all.drop next.pathLength = (c :: more).map parsed := by
        rw [hlength]
        exact drop_succ_of_drop hall
      obtain ⟨last, hwalk, hlast⟩ := ih rfl hnext hallNext hfirst
      exact ⟨last, walk_cons.mpr (.inr ⟨next, hvisit, hwalk⟩), hlast⟩

end Walk

section Get

variable {keccak} {key proof root : Bytes}

theorem length_lt_of_readBytes {item b : Bytes} (h : readBytes item = .ok b) :
    b.length < 2 ^ 64 := by
  simp only [readBytes, bind_eq_ok, require_eq_ok, pure_eq_ok] at h
  obtain ⟨⟨offset, n, kind⟩, hdecode, -, -, rfl⟩ := h
  have hle : ((item.drop offset).take n).length ≤ n := length_take_le _ _
  refine lt_of_le_of_lt hle ?_
  cases item with
  | nil => cases hdecode
  | cons =>
    rcases hasHeader_of_decodeLength hdecode with ⟨-, heq⟩ | ⟨header, content, -, hheader, -⟩
    · cases heq
      norm_num
    · exact hheader.lt

theorem parseProof_eq_ok {nodes : List TrieNode} (h : parseProof proof = .ok nodes) :
    nodes.length ≤ maxListLength ∧ ∀ node ∈ nodes,
      readList node.encoded = .ok node.decoded ∧ node.encoded.length < 2 ^ 64 := by
  simp only [parseProof, readList, bind_eq_ok, mapM_eq_ok] at h
  obtain ⟨items, ⟨header, -, -, -, hitems⟩, hnodes⟩ := h
  refine ⟨?_, ?_⟩
  · rw [← hnodes.length_eq]
    exact (readItems_eq_ok hitems).1
  · intro node hmem
    obtain ⟨i, rfl⟩ := mem_iff_get.mp hmem
    have hparse := hnodes.get (by rw [hnodes.length_eq]; exact i.isLt) i.isLt
    simp only [parseNode, bind_eq_ok, pure_eq_ok] at hparse
    obtain ⟨encoded, hencoded, decoded, hdecoded, hnode⟩ := hparse
    rw [← hnode]
    exact ⟨hdecoded, length_lt_of_readBytes hencoded⟩

theorem exists_walk_of_get {found : Bool} {value : Bytes}
    (hget : get keccak key proof root = .ok (found, value)) :
    ∃ nodes last, nodes.length ≤ maxListLength ∧
      (∀ node ∈ nodes, readList node.encoded = .ok node.decoded ∧
        node.encoded.length < 2 ^ 64) ∧
      walk keccak (toNibbles key) nodes (Cursor.start root) = .ok last ∧
      Answers (toNibbles key) nodes last (if found then some value else none) := by
  simp only [get, walkNodePath, slice, bind_eq_ok, pure_eq_ok] at hget
  obtain ⟨nodes, hparse, ⟨count, remainder, final⟩, ⟨last, hwalk, hlast⟩, hget⟩ := hget
  obtain ⟨hlength, hreads⟩ := parseProof_eq_ok hparse
  rw [Prod.mk.injEq, Prod.mk.injEq] at hlast
  obtain ⟨rfl, rfl, rfl⟩ := hlast
  simp only [length_drop] at hget
  refine ⟨nodes, last, hlength, hreads, hwalk, ?_⟩
  split at hget
  next hnothing =>
    simp only [bind_eq_ok, pred_eq_ok, index_eq_ok, pure_eq_ok, Prod.mk.injEq] at hget
    obtain ⟨i, hi, node, hnode, stored, hstored, rfl, rfl⟩ := hget
    exact ⟨by omega, i, node, hi, hnode, hstored⟩
  next hrest =>
    simp only [bind_eq_ok, require_eq_ok, pure_eq_ok, Prod.mk.injEq] at hget
    obtain ⟨-, hfinal, rfl, -⟩ := hget
    exact ⟨by omega, of_decide_eq_true hfinal⟩

/-- Every answer of `get` is read from elements of the proof, the first of which has the root
hash. -/
theorem reads_of_get {found : Bool} {value : Bytes}
    (hroot : ∀ b, keccak b = root → Consumes (parsed b) (toNibbles key) (toNibbles key))
    (hnull : root ≠ rlpNull) (hget : get keccak key proof root = .ok (found, value)) :
    ∃ b more, keccak b = root ∧ (b :: more).length ≤ maxListLength ∧
      Reads keccak (b :: more) (toNibbles key) (if found then some value else none) := by
  obtain ⟨nodes, last, hlength, hreads, hwalk, hanswer⟩ := exists_walk_of_get hget
  cases nodes with
  | nil =>
    -- a proof without elements ends at the root hash
    cases hwalk
    cases found with
    | false => exact absurd hanswer.2 hnull
    | true =>
      obtain ⟨-, i, -, hi, -⟩ := hanswer
      cases hi
  | cons node =>
    have hread := (hreads node mem_cons_self).1
    have hcheck : checkNode keccak node.encoded (Cursor.start root).advance = .ok () := by
      rcases walk_cons.mp hwalk with hstop | ⟨next, hnext, -⟩
      · exact checkNode_of_visit hstop
      · exact checkNode_of_visit hnext
    have hhash : keccak node.encoded = root := require_eq_ok.mp hcheck
    have hstep := hroot _ hhash
    rw [parsed_eq hread] at hstep
    obtain ⟨-, more, hmore, hresult⟩ := reads_of_walk hreads (Nat.zero_le _) hstep rfl hwalk hanswer
    refine ⟨node.encoded, more, hhash, ?_, hresult⟩
    have hle := hmore.length_le
    rw [length_map] at hle
    rw [length_cons] at hlength ⊢
    omega

theorem Reads.length_lt {elements : List Bytes} {rest : Bytes} {answer : Option Bytes}
    (h : Reads keccak elements rest answer) : ∀ c ∈ elements.tail, c.length < 2 ^ 64 := by
  induction h with
  | next hread hreading hpasses _ ih => exact forall_mem_cons.mpr ⟨hpasses.1, ih⟩
  | _ => exact forall_mem_nil _

theorem parseProof_of_readList {elements : List Bytes}
    (hproof : readList proof = .ok (elements.map encodeString))
    (hreads : ∀ b ∈ elements, readList (parsed b).encoded = .ok (parsed b).decoded)
    (hlength : ∀ b ∈ elements, b.length < 2 ^ 64) :
    parseProof proof = .ok (elements.map parsed) := by
  unfold parseProof
  rw [hproof, ok_bind, mapM_eq_ok, forall₂_map_left_iff, forall₂_map_right_iff, forall₂_same]
  intro b hb
  have hread : readList b = .ok (parsed b).decoded := hreads b hb
  unfold parseNode
  rw [readBytes_encodes (encodes_encodeString (hlength b hb)), ok_bind, hread]
  rfl

/-- Elements that read as an answer and begin with the root make up a proof of it. -/
theorem get_of_reads {b : Bytes} {more : List Bytes} {answer : Option Bytes}
    (h : Reads keccak (b :: more) (toNibbles key) answer) (hhash : keccak b = root)
    (hstep : Consumes (parsed b) (toNibbles key) (toNibbles key)) (hsize : b.length < 2 ^ 64)
    (hproof : readList proof = .ok ((b :: more).map encodeString)) :
    get keccak key proof root = .ok (answer.isSome, answer.getD []) := by
  have hparse := parseProof_of_readList hproof h.exists_items
    (forall_mem_cons.mpr ⟨hsize, h.length_lt⟩)
  have hfirst : ∀ c ∈ (b :: more).head?, Consumes (parsed c) (toNibbles key) (toNibbles key) ∧
      checkNode keccak c (Cursor.start root).advance = .ok () := by
    rintro c ⟨⟩
    exact ⟨hstep, require_eq_ok.mpr hhash⟩
  obtain ⟨last, hwalk, hlast⟩ : ∃ last, walk keccak (toNibbles key) ((b :: more).map parsed)
      (Cursor.start root) = .ok last ∧
      Answers (toNibbles key) ((b :: more).map parsed) last answer :=
    walk_of_reads h rfl (Nat.zero_le _) rfl hfirst
  have hpath : walkNodePath keccak ((b :: more).map parsed) key root =
      .ok (last.pathLength, (toNibbles key).drop last.keyIndex,
        decide (last.nodeID = rlpNull)) := by
    unfold walkNodePath
    simp only [hwalk, ok_bind]
    rfl
  unfold get
  rw [hparse, ok_bind, hpath, ok_bind]
  cases answer with
  | none =>
    obtain ⟨hlt, hnull⟩ := hlast
    simp only [length_drop, hnull]
    rw [if_neg (by omega)]
    rfl
  | some =>
    obtain ⟨hle, i, node, hi, hnode, hvalue⟩ := hlast
    have hpred : pred last.pathLength = .ok i := pred_eq_ok.mpr hi
    simp only [length_drop]
    rw [if_pos (by omega), hpred, ok_bind, index_eq_ok.mpr hnode, ok_bind, hvalue]
    rfl

end Get

end Trie
