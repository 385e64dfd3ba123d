import TokamakTitan.Library.Rlp

/-! Hexary Merkle Patricia tries over keys of any lengths, where a branch can hold a value: what
they map, the nodes on the way to a key, and the encoding of nodes. -/
namespace HexTrie
open Rlp List

abbrev Nibble := Fin 16

instance neZero_sixteen : NeZero 16 := ⟨by decide⟩

structure HashFunction where
  digest : Bytes → Bytes
  length_digest : ∀ b, (digest b).length = 32

instance : CoeFun HashFunction fun _ => Bytes → Bytes := ⟨HashFunction.digest⟩

inductive Node where
  | null
  | leaf (path : List Nibble) (value : Bytes)
  | extension (path : List Nibble) (child : Node)
  | branch (children : Nibble → Node) (value : Bytes)

def stored (value : Bytes) : Option Bytes := if value = [] then none else some value

def nibbles (b : Bytes) : List Nibble :=
  b.flatMap fun x => [⟨x.toNat / 16, by have := x.toNat_lt; omega⟩,
    ⟨x.toNat % 16, Nat.mod_lt _ (by norm_num)⟩]

def pack : List Nibble → Bytes
  | high :: low :: rest => UInt8.ofNat (16 * high + low) :: pack rest
  | _ => []

/-- The compact form of a path: the first nibble flags leaves and odd lengths. -/
def hexPrefix (terminal : Bool) (path : List Nibble) : Bytes :=
  if path.length % 2 = 0 then pack ((if terminal then 2 else 0) :: 0 :: path)
  else pack ((if terminal then 3 else 1) :: path)

/-- How a node refers to a child: a short encoding stands for itself, a long one is hashed. -/
def reference (hash : HashFunction) (encoded : Bytes) : Bytes :=
  if encoded.length < 32 then encoded else encodeString (hash encoded)

namespace Node

def IsBranch : Node → Prop
  | branch _ _ => True
  | _ => False

def lookup : Node → List Nibble → Option Bytes
  | null, _ => none
  | leaf path value, key => if key = path then some value else none
  | extension path child, key =>
    if key.take path.length = path then child.lookup (key.drop path.length) else none
  | branch _ value, [] => stored value
  | branch children _, nibble :: key => (children nibble).lookup key

/-- The nodes on the way to a key, each with what is left of the key there. -/
def steps : Node → List Nibble → List (Node × List Nibble)
  | null, key => [(null, key)]
  | leaf path value, key => [(leaf path value, key)]
  | extension path child, key =>
    (extension path child, key) ::
      if key.take path.length = path then child.steps (key.drop path.length) else []
  | branch children value, [] => [(branch children value, [])]
  | branch children value, nibble :: key =>
    (branch children value, nibble :: key) :: (children nibble).steps key

def trail (node : Node) (key : List Nibble) : List Node := (node.steps key).map Prod.fst

def encode (hash : HashFunction) : Node → Bytes
  | null => encodeString []
  | leaf path value => encodeList [encodeString (hexPrefix true path), encodeString value]
  | extension path child =>
    encodeList [encodeString (hexPrefix false path), reference hash (child.encode hash)]
  | branch children value =>
    encodeList ((List.ofFn fun nibble => reference hash ((children nibble).encode hash)) ++
      [encodeString value])

def items (hash : HashFunction) : Node → List Bytes
  | null => []
  | leaf path value => [encodeString (hexPrefix true path), encodeString value]
  | extension path child =>
    [encodeString (hexPrefix false path), reference hash (child.encode hash)]
  | branch children value =>
    (List.ofFn fun nibble => reference hash ((children nibble).encode hash)) ++ [encodeString value]

/-- A trie in normal form whose nodes have fewer than `2 ^ 64` bytes: headers take nine of them,
and references 33 each. -/
def WellFormed : Node → Prop
  | null => True
  | leaf path value =>
    value ≠ [] ∧
      (encodeString (hexPrefix true path)).length + (encodeString value).length + 9 < 2 ^ 64
  | extension path child =>
    path ≠ [] ∧ child.IsBranch ∧ child.WellFormed ∧
      (encodeString (hexPrefix false path)).length + 33 + 9 < 2 ^ 64
  | branch children value =>
    (∀ nibble, (children nibble).WellFormed) ∧
      (encodeString value).length + 16 * 33 + 9 < 2 ^ 64 ∧
      ∃ i, children i ≠ null ∧ (value ≠ [] ∨ ∃ j, i ≠ j ∧ children j ≠ null)

/-- All keys have `depth` more nibbles, so that no branch holds a value. -/
def HasDepth : ℕ → Node → Prop
  | _, null => True
  | depth, leaf path _ => path.length = depth
  | depth, extension path child => path.length ≤ depth ∧ child.HasDepth (depth - path.length)
  | depth, branch children value =>
    value = [] ∧ 0 < depth ∧ ∀ nibble, (children nibble).HasDepth (depth - 1)

section Steps

variable {node child : Node} {key rest : List Nibble}

theorem steps_eq_cons (node : Node) (key : List Nibble) :
    ∃ below, node.steps key = (node, key) :: below := by
  cases node with
  | null => exact ⟨[], rfl⟩
  | leaf => exact ⟨[], rfl⟩
  | extension => exact ⟨_, rfl⟩
  | branch =>
    cases key with
    | nil => exact ⟨[], rfl⟩
    | cons => exact ⟨_, rfl⟩

/-- A property of a node and what is left of the key that is handed down to children holds on the
whole way to the key. -/
theorem steps_invariant (P : Node → List Nibble → Prop)
    (hextension : ∀ path child key, key.take path.length = path → P (extension path child) key →
      P child (key.drop path.length))
    (hbranch : ∀ children value nibble key, P (branch children value) (nibble :: key) →
      P (children nibble) key)
    (h : P node key) : ∀ step ∈ node.steps key, P step.1 step.2 := by
  induction node generalizing key with
  | null => exact forall_mem_singleton.mpr h
  | leaf => exact forall_mem_singleton.mpr h
  | extension path child ih =>
    rw [steps, forall_mem_cons]
    refine ⟨h, ?_⟩
    split
    next hpath => exact ih (hextension path child key hpath h)
    next => exact forall_mem_nil _
  | branch children value ih =>
    cases key with
    | nil => exact forall_mem_singleton.mpr h
    | cons nibble key =>
      rw [steps, forall_mem_cons]
      exact ⟨h, ih nibble (hbranch children value nibble key h)⟩

theorem lookup_of_steps {i : ℕ} (h : (node.steps key)[i]? = some (child, rest)) :
    node.lookup key = child.lookup rest := by
  have hsteps : ∀ step ∈ node.steps key, node.lookup key = step.1.lookup step.2 := by
    refine steps_invariant (fun other rest => node.lookup key = other.lookup rest) ?_ ?_ rfl
    · intro path child key hpath heq
      rw [heq, lookup, if_pos hpath]
    · intro children value nibble key heq
      rw [heq, lookup]
  exact hsteps _ (mem_of_getElem? h)

theorem wellFormed_of_steps (hwf : node.WellFormed) : ∀ step ∈ node.steps key, step.1.WellFormed :=
  steps_invariant (fun other _ => other.WellFormed) (fun _ _ _ _ h => h.2.2.1)
    (fun _ _ nibble _ h => h.1 nibble) hwf

theorem hasDepth_of_steps (h : node.HasDepth key.length) :
    ∀ step ∈ node.steps key, step.1.HasDepth step.2.length := by
  refine steps_invariant (fun other rest => other.HasDepth rest.length) ?_ ?_ h
  · intro path child key hpath hdepth
    rw [length_drop]
    exact hdepth.2
  · intro children value nibble key hdepth
    exact hdepth.2.2 nibble

end Steps

variable {node : Node}

theorem encode_eq_encodeList (hash : HashFunction) (h : node ≠ null) :
    node.encode hash = encodeList (node.items hash) := by
  cases node with
  | null => exact absurd rfl h
  | leaf => rfl
  | extension => rfl
  | branch => rfl

theorem length_encode_pos (hash : HashFunction) (node : Node) : 0 < (node.encode hash).length := by
  by_cases hnull : node = null
  · rw [hnull]
    exact length_encodeString_pos []
  · rw [encode_eq_encodeList hash hnull]
    exact length_encodeList_pos _

end Node

theorem length_nibbles (b : Bytes) : (nibbles b).length = 2 * b.length := by
  induction b with
  | nil => rfl
  | cons x b ih =>
    simp only [nibbles, flatMap_cons, length_append, length_cons, length_nil] at ih ⊢
    omega

variable (hash : HashFunction)

theorem length_encodeString_digest (b : Bytes) : (encodeString (hash b)).length = 33 := by
  have hlen := hash.length_digest b
  rw [encodeString_header (by omega), length_append, hlen, encodeLength_short _ (by norm_num)]
  rfl

theorem length_reference_le (encoded : Bytes) : (reference hash encoded).length ≤ 33 := by
  unfold reference
  split
  · omega
  · rw [length_encodeString_digest]

theorem le_length_reference {encoded : Bytes} {n : ℕ} (hn : n ≤ 33) (h : n ≤ encoded.length) :
    n ≤ (reference hash encoded).length := by
  unfold reference
  split
  · exact h
  · rw [length_encodeString_digest]
    exact hn

theorem length_flatten_references (children : Nibble → Bytes)
    (hpos : ∀ nibble, 0 < (children nibble).length) :
    16 ≤ (ofFn fun nibble => reference hash (children nibble)).flatten.length ∧
      (ofFn fun nibble => reference hash (children nibble)).flatten.length ≤ 528 := by
  have hle : ∀ nibble, (reference hash (children nibble)).length ≤ 33 :=
    fun nibble => length_reference_le hash _
  have hge : ∀ nibble, 1 ≤ (reference hash (children nibble)).length :=
    fun nibble => le_length_reference hash (by norm_num) (hpos nibble)
  have hsum : (ofFn fun nibble => reference hash (children nibble)).flatten.length =
      ∑ nibble, (reference hash (children nibble)).length := by
    rw [length_flatten, map_ofFn, sum_ofFn]
    rfl
  have hupper := Finset.sum_le_card_nsmul Finset.univ _ 33 fun nibble _ => hle nibble
  have hlower := Finset.card_nsmul_le_sum Finset.univ _ 1 fun nibble _ => hge nibble
  simp only [Finset.card_univ, Fintype.card_fin, smul_eq_mul] at hupper hlower
  omega

namespace Node

variable {node : Node}

@[simp] theorem length_items_branch (children : Nibble → Node) (value : Bytes) :
    ((branch children value).items hash).length = 17 := by
  simp [items]

theorem length_flatten_branch (children : Nibble → Node) (value : Bytes) :
    16 + (encodeString value).length ≤ ((branch children value).items hash).flatten.length ∧
      ((branch children value).items hash).flatten.length ≤
        16 * 33 + (encodeString value).length := by
  have hreferences := length_flatten_references hash (fun nibble => (children nibble).encode hash)
    fun nibble => (children nibble).length_encode_pos hash
  rw [items, flatten_append, length_append, flatten_singleton]
  omega

theorem length_encode_extension_ge (path : List Nibble) {child : Node} (h : child.IsBranch) :
    20 ≤ ((extension path child).encode hash).length := by
  cases child with
  | branch children value =>
    have hcontent := (length_flatten_branch hash children value).1
    have hvalue := length_encodeString_pos value
    have hlt := length_flatten_lt ((branch children value).items hash)
    have hbranch : 18 ≤ ((branch children value).encode hash).length := by
      rw [encode_eq_encodeList hash (by simp)]
      omega
    have href := le_length_reference hash (by norm_num) hbranch
    have hpath := length_encodeString_pos (hexPrefix false path)
    have hwhole := length_flatten_lt ((extension path (branch children value)).items hash)
    rw [encode_eq_encodeList hash (by simp)]
    simp only [items, flatten_cons, flatten_nil, append_nil, length_append] at hwhole ⊢
    omega
  | _ => exact h.elim

theorem length_flatten_items_lt (hwf : node.WellFormed) :
    (node.items hash).flatten.length + 9 < 2 ^ 64 := by
  cases node with
  | null => simp [items]
  | leaf =>
    obtain ⟨-, hsize⟩ := hwf
    simpa only [items, flatten_cons, flatten_nil, append_nil, length_append] using hsize
  | extension path child =>
    obtain ⟨-, -, -, hsize⟩ := hwf
    have href := length_reference_le hash (child.encode hash)
    simp only [items, flatten_cons, flatten_nil, append_nil, length_append]
    omega
  | branch children value =>
    obtain ⟨-, hsize, -⟩ := hwf
    have hcontent := (length_flatten_branch hash children value).2
    omega

theorem length_items_le (node : Node) : (node.items hash).length ≤ 17 := by
  cases node with
  | branch => rw [length_items_branch]
  | _ => simp [items]

theorem length_encode_lt (hwf : node.WellFormed) : (node.encode hash).length < 2 ^ 64 := by
  by_cases hnull : node = null
  · rw [hnull]
    show 1 < 2 ^ 64
    norm_num
  · have hcontent := length_flatten_items_lt hash hwf
    have hle := length_encodeList_le (show (node.items hash).flatten.length < 2 ^ 64 by omega)
    rw [encode_eq_encodeList hash hnull]
    omega

end Node

end HexTrie
