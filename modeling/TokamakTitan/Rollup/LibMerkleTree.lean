import TokamakTitan.Library.Checked
import TokamakTitan.Library.Keccak
import TokamakTitan.Library.MerkleTree

/-! `Lib_MerkleTree`: the root is computed in place, row by row, with a table of default hashes for
odd rows. It is the root of the perfect tree over the elements and default leaves. -/
namespace Rollup.LibMerkleTree
open Checked BigEndian MerkleTree List Nat

def keccak256 (data : List UInt8) : Bytes32 := BitVec.ofNat 256 (decode (Keccak.keccak256 data))

def hashPair (left right : Bytes32) : Bytes32 :=
  keccak256 (encode 32 left.toNat ++ encode 32 right.toNat)

def defaults : List Bytes32 :=
  [0x290decd9548b62a8d60345a988386fc84ba6bc95484008f6362f93160ef3e563,
    0x633dc4d7da7256660a892f8f1604a44b5432649cc8ec5cb3ced4c4e6ac94dd1d,
    0x890740a8eb06ce9be422cb8da5cdafc2b58c0a5e24036c578de2a433c828ff7d,
    0x3b8ec09e026fdc305365dfc94e189a81b38c7597b3d941c279f042e8206e0bd8,
    0xecd50eee38e386bd62be9bedb990706951b65fe053bd9d8a521af753d139e2da,
    0xdefff6d330bb5403f63b14f33b578274160de3a50df4efecf0e0db73bcdd3da5,
    0x617bdd11f7c0a11f49db22f629387a12da7596f9d1704d7465177c63d88ec7d7,
    0x292c23a9aa1d8bea7e2435e555a4a60e379a5a35f3f452bae60121073fb6eead,
    0xe1cea92ed99acdcb045a6726b2f87107e8a61620a232cf4d7d5b5766b3952e10,
    0x7ad66c0a68c72cb89e4fb4303841966e4062a76ab97451e3b9fb526a5ceb7f82,
    0xe026cc5a4aed3c22a58cbd3d2ac754c9352c5436f638042dca99034e83636516,
    0x3d04cffd8b46a874edf5cfae63077de85f849a660426697b06a829c70dd1409c,
    0xad676aa337a485e4728a0b240d92b3ef7b3c372d06d189322bfd5f61f1e7203e,
    0xa2fca4a49658f9fab7aa63289c91b7c7b6c832a6d0e69334ff5b0a3483d09dab,
    0x4ebfd9cd7bca2505f7bef59cc1c12ecc708fff26ae4af19abe852afe9e20c862,
    0x2def10d13dd169f550f578bda343d9717a138562e0093b380a1120789d53cf10]

def hashRow (halfRowSize : ℕ) (elements : List Bytes32) : Result (List Bytes32) :=
  (List.range halfRowSize).foldlM (fun elements i => do
    let leftSibling ← index elements (2 * i)
    let rightSibling ← index elements (2 * i + 1)
    return elements.set i (hashPair leftSibling rightSibling)) elements

/-- The last element of an odd row is hashed with the default of the depth. -/
def hashLast (rowSize depth : ℕ) (elements : List Bytes32) : Result (List Bytes32) :=
  if rowSize % 2 = 1 then do
    let leftSibling ← index elements (rowSize - 1)
    let rightSibling ← index defaults depth
    return elements.set (rowSize / 2) (hashPair leftSibling rightSibling)
  else .ok elements

def hashRows (rowSize depth : ℕ) (elements : List Bytes32) : Result (List Bytes32) :=
  if 1 < rowSize then do
    let elements ← hashRow (rowSize / 2) elements
    let elements ← hashLast rowSize depth elements
    hashRows (rowSize / 2 + if rowSize % 2 = 1 then 1 else 0) (depth + 1) elements
  else .ok elements
termination_by rowSize
decreasing_by split <;> omega

variable (elements : List Bytes32)

def getMerkleRoot : Result Bytes32 := do
  require (0 < elements.length) "Lib_MerkleTree: Must provide at least one leaf hash."
  if elements.length = 1 then index elements 0
  else do
    let elements ← hashRows elements.length 0 elements
    index elements 0

def highestBit (highest : ℕ) (val : Uint256) (i : ℕ) : ℕ :=
  if 1 ≤ i then
    if val &&& (((1#256 <<< i) - 1) <<< i) ≠ 0 then highestBit (highest + i) (val >>> i) (i >>> 1)
    else highestBit highest val (i >>> 1)
  else highest
termination_by i
decreasing_by all_goals rw [Nat.shiftRight_one]; omega

def ceilLog2 (n : Uint256) : Result ℕ := do
  require (0 < n.toNat) "Lib_MerkleTree: Cannot compute ceil(log_2) of 0."
  if n = 1 then return 0
  else
    let highest := highestBit 0 n 128
    return if 1#256 <<< highest ≠ n then highest + 1 else highest

def computedRoot : Bytes32 → Uint256 → List Bytes32 → Bytes32
  | root, _, [] => root
  | root, index, sibling :: siblings =>
    computedRoot (if index &&& 1 = 1 then hashPair sibling root else hashPair root sibling)
      (index >>> 1) siblings

def verify (root leaf : Bytes32) (index : Uint256) (siblings : List Bytes32)
    (totalLeaves : Uint256) : Result Bool := do
  require (0 < totalLeaves.toNat) "Lib_MerkleTree: Total leaves must be greater than zero."
  require (index.toNat < totalLeaves.toNat) "Lib_MerkleTree: Index out of bounds."
  let depth ← ceilLog2 totalLeaves
  require (siblings.length = depth)
    "Lib_MerkleTree: Total siblings does not correctly correspond to total leaves."
  return decide (root = computedRoot leaf index siblings)

/-- The leaves of the perfect tree: the elements, and the hash of 32 zero bytes behind them. -/
def leafAt (p : ℕ) : Bytes32 :=
  elements.getD p (keccak256 (List.replicate 32 0))

def treeHeight : ℕ := Nat.clog 2 elements.length

def treeRoot : Bytes32 :=
  MerkleTree.value hashPair (leafAt elements) (treeHeight elements) 0

def treeSiblings (i : ℕ) : List Bytes32 :=
  MerkleTree.path hashPair (leafAt elements) (treeHeight elements) 0 i

theorem defaults_zero : defaults[0]? = some (keccak256 (replicate 32 0)) := by
  decide +kernel

theorem defaults_succ : ∀ d < 15,
    defaults[d + 1]? = defaults[d]?.map fun hash => hashPair hash hash := by
  decide +kernel

theorem defaults_eq {d : ℕ} (h : d < 16) : defaults[d]? =
    some (uniform hashPair (keccak256 (replicate 32 0)) d) := by
  induction d with
  | zero => exact defaults_zero
  | succ d ih =>
    rw [defaults_succ d (by omega), ih (by omega)]
    rfl

section Rows

variable {elements row : List Bytes32} {d r : ℕ}

/-- The front of `row` is the row of the tree at depth `d`; behind it the tree is empty. -/
structure IsRow (elements : List Bytes32) (d r : ℕ) (row : List Bytes32) : Prop where
  getElem : ∀ p < r, row[p]? = some (MerkleTree.value hashPair (leafAt elements) d p)
  covers : elements.length ≤ r * 2 ^ d
  tight : (r - 1) * 2 ^ d < elements.length
  depth_le : d ≤ treeHeight elements

variable (h : IsRow elements d r row)
include h

theorem hashRow_eq {half : ℕ} (hhalf : 2 * half ≤ r) :
    ∃ next, hashRow half row = .ok next ∧ next.length = row.length ∧
      (∀ p < half, next[p]? = some (value hashPair (leafAt elements) (d + 1) p)) ∧
      ∀ p, half ≤ p → next[p]? = row[p]? := by
  induction half with
  | zero => exact ⟨row, rfl, rfl, by simp, fun _ _ => rfl⟩
  | succ half ih =>
    obtain ⟨next, hok, hlength, hfront, hback⟩ := ih (by omega)
    have hleft : next[2 * half]? = some _ := (hback _ (by omega)).trans (h.getElem _ (by omega))
    have hright : next[2 * half + 1]? = some _ :=
      (hback _ (by omega)).trans (h.getElem _ (by omega))
    have hlt : half < next.length := by
      have hbound := (List.getElem?_eq_some_iff.mp hleft).1
      omega
    unfold hashRow at hok ⊢
    rw [range_succ, foldlM_append, hok, ok_bind, foldlM_cons,
      index_eq_ok.mpr hleft, ok_bind, index_eq_ok.mpr hright, ok_bind]
    refine ⟨_, rfl, by rw [length_set, hlength], ?_, ?_⟩
    · intro p hp
      by_cases heq : p = half
      · subst heq
        rw [getElem?_set_self hlt]
        rfl
      · rw [getElem?_set_ne (Ne.symm heq)]
        exact hfront p (by omega)
    · intro p hp
      rw [getElem?_set_ne (by omega)]
      exact hback p (by omega)

theorem IsRow.lt_height (hr : 1 < r) : d < treeHeight elements := by
  have hle : 2 ^ d ≤ (r - 1) * 2 ^ d := Nat.le_mul_of_pos_left _ (by omega)
  exact (lt_clog_iff_pow_lt (by norm_num)).mpr (hle.trans_lt h.tight)

omit h in
theorem leafAt_of_le {p : ℕ} (h : elements.length ≤ p) :
    leafAt elements p = keccak256 (replicate 32 0) := by
  rw [leafAt, getD_eq_getElem?_getD, List.getElem?_eq_none h]
  rfl

omit h in
theorem leafAt_of_lt {p : ℕ} (h : p < elements.length) : leafAt elements p = elements[p] := by
  rw [leafAt, getD_eq_getElem?_getD, List.getElem?_eq_getElem h]
  rfl

theorem IsRow.hashLast_eq (hr : 1 < r) (hdepth : d < 16) {hashed : List Bytes32}
    (hlength : hashed.length = row.length) (hfront : ∀ p < r / 2, hashed[p]? = some
      (value hashPair (leafAt elements) (d + 1) p))
    (hback : ∀ p, r / 2 ≤ p → hashed[p]? = row[p]?) (hodd : r % 2 = 1) :
    ∃ next, hashLast r d hashed = .ok next ∧ ∀ p < r / 2 + 1,
      next[p]? = some (value hashPair (leafAt elements) (d + 1) p) := by
  have hleft : hashed[r - 1]? = some _ := (hback _ (by omega)).trans (h.getElem _ (by omega))
  have hmissing : value hashPair (leafAt elements) d r = _ :=
    value_eq_uniform (fun q hq => leafAt_of_le hq) h.covers
  have hlt : r / 2 < hashed.length := by
    have hbound := (List.getElem?_eq_some_iff.mp hleft).1
    omega
  rw [hashLast, if_pos hodd, index_eq_ok.mpr hleft, ok_bind, index_eq_ok.mpr (defaults_eq hdepth),
    ok_bind, ← hmissing]
  refine ⟨_, rfl, ?_⟩
  intro p hp
  by_cases heq : p = r / 2
  · subst heq
    rw [getElem?_set_self hlt, value, show 2 * (r / 2) = r - 1 by omega,
      show r - 1 + 1 = r by omega]
  · rw [getElem?_set_ne (Ne.symm heq)]
    exact hfront p (by omega)

theorem IsRow.next (hr : 1 < r) (hdepth : r % 2 = 1 → d < 16) :
    ∃ hashed next, hashRow (r / 2) row = .ok hashed ∧ hashLast r d hashed = .ok next ∧
      IsRow elements (d + 1) (r / 2 + if r % 2 = 1 then 1 else 0) next := by
  have hhalf : 2 * (r / 2) ≤ r := by omega
  obtain ⟨hashed, hok, hlength, hfront, hback⟩ := hashRow_eq h hhalf
  have hcovers := h.covers
  have htight := h.tight
  have hheight := h.lt_height hr
  by_cases hodd : r % 2 = 1
  · obtain ⟨next, hlast, hget⟩ := h.hashLast_eq hr (hdepth hodd) hlength hfront hback hodd
    refine ⟨hashed, next, hok, hlast, ?_⟩
    rw [if_pos hodd]
    constructor
    case getElem => exact hget
    case covers =>
      have hmul : r * 2 ^ d ≤ (r / 2 + 1) * 2 ^ (d + 1) := by
        rw [pow_succ, Nat.mul_comm (2 ^ d) 2, ← Nat.mul_assoc]
        exact Nat.mul_le_mul_right _ (by omega)
      exact hcovers.trans hmul
    case tight =>
      rw [Nat.add_sub_cancel, pow_succ, Nat.mul_comm (2 ^ d) 2, ← Nat.mul_assoc,
        show r / 2 * 2 = r - 1 by omega]
      exact htight
    case depth_le => exact hheight
  · refine ⟨hashed, hashed, hok, by rw [hashLast, if_neg hodd], ?_⟩
    simp only [if_neg hodd, add_zero]
    constructor
    case getElem => exact hfront
    case covers =>
      rw [pow_succ, Nat.mul_comm (2 ^ d) 2, ← Nat.mul_assoc, show r / 2 * 2 = r by omega]
      exact hcovers
    case tight =>
      rw [pow_succ, Nat.mul_comm (2 ^ d) 2, ← Nat.mul_assoc]
      exact (Nat.mul_le_mul_right _ (by omega)).trans_lt htight
    case depth_le => exact hheight

theorem IsRow.depth_lt (hr : 1 < r) (hn : elements.length ≤ 2 ^ 16) : d < 16 := by
  have hle : 2 ^ d ≤ (r - 1) * 2 ^ d := Nat.le_mul_of_pos_left _ (by omega)
  exact (Nat.pow_lt_pow_iff_right (by norm_num)).mp ((hle.trans_lt h.tight).trans_le hn)

omit h in
theorem depth_lt_of_hashLast {next : List Bytes32} (h : hashLast r d row = .ok next)
    (hodd : r % 2 = 1) : d < 16 := by
  rw [hashLast, if_pos hodd, bind_eq_ok] at h
  obtain ⟨left, _, h⟩ := h
  rw [bind_eq_ok] at h
  obtain ⟨right, hright, _⟩ := h
  exact (List.getElem?_eq_some_iff.mp (index_eq_ok.mp hright)).1

omit h in
theorem IsRow.root (h : IsRow elements d 1 row) : row[0]? = some (treeRoot elements) := by
  have hheight : treeHeight elements ≤ d := clog_le_of_le_pow (by simpa using h.covers)
  rw [treeRoot, le_antisymm hheight h.depth_le]
  exact h.getElem 0 (by omega)

omit h in
theorem hashRows_eq (hn : elements.length ≤ 2 ^ 16) (h : IsRow elements d r row) (hr : 0 < r) :
    ∃ last, hashRows r d row = .ok last ∧ last[0]? = some (treeRoot elements) := by
  induction r using Nat.strong_induction_on generalizing d row with
  | _ r ih =>
    rw [hashRows]
    by_cases hmore : 1 < r
    · obtain ⟨hashed, next, hok, hlast, hrow⟩ := h.next hmore fun _ => h.depth_lt hmore hn
      rw [if_pos hmore, hok, ok_bind, hlast, ok_bind]
      exact ih _ (by split <;> omega) hrow (by omega)
    · obtain rfl : r = 1 := by omega
      exact ⟨row, if_neg hmore, h.root⟩

theorem root_of_hashRows {last : List Bytes32} (hr : 0 < r) (hok : hashRows r d row = .ok last) :
    last[0]? = some (treeRoot elements) := by
  induction r using Nat.strong_induction_on generalizing d row with
  | _ r ih =>
    rw [hashRows] at hok
    by_cases hmore : 1 < r
    · rw [if_pos hmore, bind_eq_ok] at hok
      obtain ⟨hashed, hhashed, hok⟩ := hok
      rw [bind_eq_ok] at hok
      obtain ⟨next, hnext, hok⟩ := hok
      obtain ⟨hashed', next', hhashed', hnext', hrow⟩ :=
        h.next hmore fun hodd => depth_lt_of_hashLast hnext hodd
      obtain rfl := Except.ok.inj (hhashed.symm.trans hhashed')
      obtain rfl := Except.ok.inj (hnext.symm.trans hnext')
      exact ih _ (by split <;> omega) hrow (by omega) hok
    · obtain rfl : r = 1 := by omega
      rw [if_neg hmore] at hok
      cases hok
      exact h.root

omit h in
theorem isRow_elements (hne : elements ≠ []) : IsRow elements 0 elements.length elements := by
  have hpos := length_pos_of_ne_nil hne
  constructor
  case getElem =>
    intro p hp
    rw [value, leafAt_of_lt hp, List.getElem?_eq_getElem hp]
  case covers => simp
  case tight =>
    rw [pow_zero, mul_one]
    omega
  case depth_le => exact zero_le _

omit h in
theorem getMerkleRoot_eq (hne : elements ≠ []) (hn : elements.length ≤ 2 ^ 16) :
    getMerkleRoot elements = .ok (treeRoot elements) := by
  have hpos := length_pos_of_ne_nil hne
  rw [getMerkleRoot, require_eq_ok (u := ()).mpr hpos, ok_bind]
  obtain ⟨last, hok, hroot⟩ := hashRows_eq hn (isRow_elements hne) hpos
  by_cases hone : elements.length = 1
  · rw [if_pos hone]
    rw [hashRows, if_neg (by omega)] at hok
    cases hok
    exact index_eq_ok.mpr hroot
  · rw [if_neg hone, hok, ok_bind]
    exact index_eq_ok.mpr hroot

omit h in
theorem eq_treeRoot_of_getMerkleRoot {root : Bytes32} (h : getMerkleRoot elements = .ok root) :
    root = treeRoot elements := by
  rw [getMerkleRoot, bind_eq_ok] at h
  obtain ⟨u, hpos, h⟩ := h
  rw [require_eq_ok] at hpos
  have hrow := isRow_elements (ne_nil_of_length_pos hpos)
  by_cases hone : elements.length = 1
  · rw [if_pos hone, index_eq_ok] at h
    rw [hone] at hrow
    exact Option.some.inj (h.symm.trans hrow.root)
  · rw [if_neg hone, bind_eq_ok] at h
    obtain ⟨last, hlast, h⟩ := h
    rw [index_eq_ok] at h
    exact Option.some.inj (h.symm.trans (root_of_hashRows hrow hpos hlast))

end Rows

theorem and_shiftLeft_eq_zero_iff {v i : ℕ} (hv : v < 2 ^ (2 * i)) :
    v &&& (2 ^ i - 1) <<< i = 0 ↔ v < 2 ^ i := by
  constructor
  · intro h
    have hshift : (v &&& (2 ^ i - 1) <<< i) >>> i = v / 2 ^ i := by
      rw [shiftRight_and_distrib, shiftLeft_shiftRight, and_two_pow_sub_one_eq_mod,
        shiftRight_eq_div_pow, Nat.mod_eq_of_lt]
      rw [div_lt_iff_lt_mul (by positivity), ← pow_add, ← two_mul]
      exact hv
    rw [h, zero_shiftRight] at hshift
    exact (div_eq_zero_iff_lt (by positivity)).mp hshift.symm
  · intro h
    apply eq_of_testBit_eq
    intro j
    rw [testBit_and, testBit_shiftLeft, zero_testBit]
    by_cases hj : i ≤ j
    · rw [Nat.testBit_lt_two_pow (h.trans_le (Nat.pow_le_pow_right (by norm_num) hj)),
        Bool.false_and]
    · simp [hj]

theorem toNat_one_shiftLeft {i : ℕ} (h : i < 256) : (1#256 <<< i).toNat = 2 ^ i := by
  have hone : (1#256).toNat = 1 := rfl
  rw [BitVec.toNat_shiftLeft, hone, Nat.shiftLeft_eq, one_mul]
  exact Nat.mod_eq_of_lt (Nat.pow_lt_pow_right (by norm_num) h)

theorem upperHalf_eq_zero_iff {val : Uint256} {i : ℕ} (hi : 2 * i ≤ 256)
    (hval : val.toNat < 2 ^ (2 * i)) :
    val &&& (((1#256 <<< i) - 1) <<< i) = 0 ↔ val.toNat < 2 ^ i := by
  have hpow : 2 ^ i * 2 ^ i ≤ 2 ^ 256 := by
    rw [← pow_add, ← two_mul]
    exact Nat.pow_le_pow_right (by norm_num) hi
  have hpos : 0 < 2 ^ i := by positivity
  have hone := toNat_one_shiftLeft (i := i) (by omega)
  have hlow : ((1#256 <<< i) - 1).toNat = 2 ^ i - 1 := by
    rw [BitVec.toNat_sub_of_le (BitVec.le_def.mpr (by rw [hone]; exact hpos)), hone]
    rfl
  have hmask : (((1#256 <<< i) - 1) <<< i).toNat = (2 ^ i - 1) <<< i := by
    rw [BitVec.toNat_shiftLeft, hlow]
    apply Nat.mod_eq_of_lt
    rw [Nat.shiftLeft_eq, Nat.sub_mul, one_mul]
    omega
  rw [← and_shiftLeft_eq_zero_iff hval, BitVec.toNat_eq, BitVec.toNat_and, hmask]
  rfl

theorem highestBit_zero (highest : ℕ) (val : Uint256) : highestBit highest val 0 = highest := by
  rw [highestBit, if_neg (by norm_num)]

theorem highestBit_eq {k highest : ℕ} {val : Uint256} (hk : 2 * 2 ^ k ≤ 256)
    (hpos : 0 < val.toNat) (hval : val.toNat < 2 ^ (2 * 2 ^ k)) :
    highestBit highest val (2 ^ k) = highest + log 2 val.toNat := by
  induction k generalizing highest val with
  | zero =>
    rw [highestBit, if_pos (by norm_num), pow_zero, show 1 >>> 1 = 0 from rfl]
    norm_num only [pow_zero] at hval
    by_cases hupper : val &&& (((1#256 <<< 1) - 1) <<< 1) = 0
    · have hsmall := (upperHalf_eq_zero_iff (by norm_num) hval).mp hupper
      rw [if_neg (by simpa using hupper), highestBit_zero, log_of_lt (by omega)]
      rfl
    · have hlarge : ¬ val.toNat < 2 ^ 1 := fun h =>
        hupper ((upperHalf_eq_zero_iff (by norm_num) hval).mpr h)
      have hlog : log 2 val.toNat = 1 :=
        (log_eq_iff (.inl (by norm_num))).mpr ⟨by omega, by omega⟩
      rw [if_pos (by simpa using hupper), highestBit_zero, hlog]
  | succ k ih =>
    have hhalf : 2 ^ (k + 1) >>> 1 = 2 ^ k := by
      rw [Nat.shiftRight_one, pow_succ, Nat.mul_div_cancel _ (by norm_num)]
    have hdouble : 2 * 2 ^ k = 2 ^ (k + 1) := by rw [pow_succ, Nat.mul_comm]
    rw [highestBit, if_pos Nat.one_le_two_pow, hhalf]
    by_cases hupper : val &&& (((1#256 <<< 2 ^ (k + 1)) - 1) <<< 2 ^ (k + 1)) = 0
    · have hsmall := (upperHalf_eq_zero_iff hk hval).mp hupper
      rw [if_neg (not_not.mpr hupper)]
      exact ih (by omega) hpos (by rw [hdouble]; exact hsmall)
    · have hlarge : 2 ^ 2 ^ (k + 1) ≤ val.toNat := not_lt.mp fun h =>
        hupper ((upperHalf_eq_zero_iff hk hval).mpr h)
      have hshift : (val >>> 2 ^ (k + 1)).toNat = val.toNat / 2 ^ 2 ^ (k + 1) := by
        rw [BitVec.toNat_ushiftRight, shiftRight_eq_div_pow]
      have hlog : 2 ^ (k + 1) ≤ log 2 val.toNat :=
        (le_log_iff_pow_le (by norm_num) (by omega)).mpr hlarge
      rw [if_pos hupper, ih (by omega), hshift, log_div_base_pow]
      · omega
      · rw [hshift]
        exact div_pos hlarge (by positivity)
      · rw [hshift, hdouble, div_lt_iff_lt_mul (by positivity), ← pow_add, ← two_mul]
        exact hval

theorem ceilLog2_eq {n : Uint256} (h : 0 < n.toNat) : ceilLog2 n = .ok (clog 2 n.toNat) := by
  rw [ceilLog2, require_eq_ok (u := ()).mpr h, ok_bind]
  split
  next hone =>
    rw [hone]
    rfl
  next hmany =>
    have hhighest : highestBit 0 n 128 = log 2 n.toNat := by
      have heq : highestBit 0 n (2 ^ 7) = 0 + log 2 n.toNat :=
        highestBit_eq (by norm_num) h (n.isLt.trans_le (by norm_num))
      rwa [zero_add] at heq
    have hlow : 2 ^ log 2 n.toNat ≤ n.toNat := pow_log_le_self 2 (by omega)
    have hhigh : n.toNat < 2 ^ (log 2 n.toNat + 1) := lt_pow_succ_log_self (by norm_num) _
    have hlog : log 2 n.toNat < 256 := log_lt_of_lt_pow (by omega) n.isLt
    have hpower : 1#256 <<< log 2 n.toNat = n ↔ 2 ^ log 2 n.toNat = n.toNat := by
      rw [BitVec.toNat_eq, toNat_one_shiftLeft hlog]
    rw [hhighest]
    dsimp only
    by_cases hexact : 1#256 <<< log 2 n.toNat = n
    · have hclog : clog 2 n.toNat = log 2 n.toNat := by
        conv_lhs => rw [← hpower.mp hexact]
        exact clog_pow 2 _ (by norm_num)
      rw [hclog, if_neg (not_not.mpr hexact)]
      rfl
    · have hne : 2 ^ log 2 n.toNat ≠ n.toNat := mt hpower.mpr hexact
      have hclog : clog 2 n.toNat = log 2 n.toNat + 1 := by
        apply le_antisymm
        · exact clog_le_of_le_pow hhigh.le
        · exact (lt_clog_iff_pow_lt (by norm_num)).mpr (lt_of_le_of_ne hlow hne)
      rw [hclog, if_pos hexact]
      rfl

theorem computedRoot_eq (leaf : Bytes32) (index : Uint256) (siblings : List Bytes32) :
    computedRoot leaf index siblings = climb hashPair leaf index.toNat siblings := by
  induction siblings generalizing leaf index with
  | nil => rfl
  | cons sibling siblings ih =>
    have hbit : index &&& 1 = 1 ↔ index.toNat % 2 = 1 := by
      rw [BitVec.toNat_eq, BitVec.toNat_and]
      simp
    have hhalf : (index >>> 1).toNat = index.toNat / 2 := by
      rw [BitVec.toNat_ushiftRight, Nat.shiftRight_one]
    rw [computedRoot, climb, ih, hhalf]
    by_cases hodd : index.toNat % 2 = 1
    · simp only [arrange, if_pos hodd, if_pos (hbit.mpr hodd)]
    · simp only [arrange, if_neg hodd, if_neg (mt hbit.mp hodd)]

theorem verify_eq {root leaf : Bytes32} {index total : Uint256} {siblings : List Bytes32}
    (hindex : index.toNat < total.toNat) :
    verify root leaf index siblings total = .ok true ↔
      siblings.length = clog 2 total.toNat ∧
        root = climb hashPair leaf index.toNat siblings := by
  have hpos : 0 < total.toNat := by omega
  rw [verify, require_eq_ok (u := ()).mpr hpos, ok_bind, require_eq_ok (u := ()).mpr hindex,
    ok_bind, ceilLog2_eq hpos, ok_bind, computedRoot_eq]
  rw [bind_eq_ok]
  constructor
  · rintro ⟨u, hlength, hroot⟩
    rw [require_eq_ok] at hlength
    rw [pure_eq_ok, decide_eq_true_eq] at hroot
    exact ⟨hlength, hroot⟩
  · rintro ⟨hlength, hroot⟩
    exact ⟨(), require_eq_ok.mpr hlength, by rw [pure_eq_ok, decide_eq_true_eq]; exact hroot⟩

def total : Uint256 := BitVec.ofNat 256 elements.length

variable {elements : List Bytes32}

theorem toNat_total (hn : elements.length < 2 ^ 256) :
    (total elements).toNat = elements.length := by
  rw [total, BitVec.toNat_ofNat, Nat.mod_eq_of_lt hn]

theorem verify_treeSiblings {index : Uint256} (hn : elements.length < 2 ^ 256)
    (hindex : index.toNat < elements.length) :
    verify (treeRoot elements) elements[index.toNat] index
      (treeSiblings elements index.toNat) (total elements) = .ok true := by
  rw [verify_eq (by rwa [toNat_total hn]), toNat_total hn, ← leafAt_of_lt hindex]
  refine ⟨length_path .., ?_⟩
  have hclimb : climb hashPair (leafAt elements index.toNat) index.toNat
      (treeSiblings elements index.toNat) = value hashPair (leafAt elements)
        (0 + treeHeight elements) (index.toNat / 2 ^ treeHeight elements) :=
    climb_path hashPair (leafAt elements) (treeHeight elements) 0 _
  have hsmall : index.toNat / 2 ^ treeHeight elements = 0 :=
    div_eq_of_lt (hindex.trans_le (le_pow_clog (by norm_num) _))
  rw [zero_add, hsmall] at hclimb
  exact hclimb.symm

/-- No two of the pairs that are hashed on the way up, from a leaf along some siblings and from the
element in its place, collide. -/
def NoCollision (elements : List Bytes32) (leaf : Bytes32) (i : ℕ) (siblings : List Bytes32) :
    Prop :=
  Set.InjOn (fun pair : Bytes32 × Bytes32 => hashPair pair.1 pair.2)
    {pair | pair ∈ MerkleTree.hashed hashPair leaf i siblings ∨
      pair ∈ MerkleTree.hashed hashPair (leafAt elements i) i (treeSiblings elements i)}

theorem eq_of_verify {leaf : Bytes32} {index : Uint256} {siblings : List Bytes32}
    (hn : elements.length < 2 ^ 256)
    (h : verify (treeRoot elements) leaf index siblings (total elements) = .ok true) :
    index.toNat < elements.length ∧
      (NoCollision elements leaf index.toNat siblings → leaf = leafAt elements index.toNat) := by
  have hindex : index.toNat < elements.length := by
    simp only [verify, bind_eq_ok, require_eq_ok] at h
    obtain ⟨_, _, _, hlt, -⟩ := h
    rwa [toNat_total hn] at hlt
  have hhonest := verify_treeSiblings hn hindex
  rw [verify_eq (by rwa [toNat_total hn])] at h hhonest
  rw [← leafAt_of_lt hindex] at hhonest
  refine ⟨hindex, fun hfree => ?_⟩
  exact (MerkleTree.eq_of_climb_eq (h.1.trans hhonest.1.symm) hfree (h.2.symm.trans hhonest.2)).1

/-- The root is that of the perfect tree, every element has an accepted proof, and no other leaf has
one unless two hashed pairs collide. -/
theorem merkle_tree_correct (elements : List Bytes32) (hne : elements ≠ [])
    (hn : elements.length ≤ 2 ^ 16) :
    getMerkleRoot elements = .ok (treeRoot elements) ∧
    ∀ (index : Uint256) (hindex : index.toNat < elements.length),
      verify (treeRoot elements) elements[index.toNat] index
        (treeSiblings elements index.toNat) (total elements) = .ok true ∧
      ∀ leaf siblings, verify (treeRoot elements) leaf index siblings (total elements) = .ok true →
        Set.InjOn (fun pair : Bytes32 × Bytes32 => hashPair pair.1 pair.2)
          {pair | pair ∈ MerkleTree.hashed hashPair leaf index.toNat siblings ∨
            pair ∈ MerkleTree.hashed hashPair elements[index.toNat] index.toNat
              (treeSiblings elements index.toNat)} →
        leaf = elements[index.toNat] := by
  refine ⟨getMerkleRoot_eq hne hn, ?_⟩
  intro index hindex
  have hword : elements.length < 2 ^ 256 := hn.trans_lt (by norm_num)
  have hhonest := verify_treeSiblings hword hindex
  refine ⟨hhonest, ?_⟩
  intro leaf siblings hverify hinj
  rw [verify_eq (by rwa [toNat_total hword])] at hverify hhonest
  exact (MerkleTree.eq_of_climb_eq (hverify.1.trans hhonest.1.symm) hinj
    (hverify.2.symm.trans hhonest.2)).1

theorem merkle_tree_sample :
    getMerkleRoot [7, 9] = .ok (treeRoot [7, 9]) ∧
    verify (treeRoot [7, 9]) 9 1 (treeSiblings [7, 9] 1) 2 = .ok true ∧
    (9 : Bytes32) = [7, 9][1] := by
  obtain ⟨hroot, hproofs⟩ := merkle_tree_correct [7, 9] (by simp) (by simp)
  obtain ⟨hverify, hsound⟩ := hproofs 1 (by decide)
  refine ⟨hroot, hverify, hsound 9 _ hverify ?_⟩
  -- one pair is hashed, so that nothing can collide
  have hheight : treeHeight [7, 9] = 1 := by decide +kernel
  have hone : ∀ pair, pair ∈ MerkleTree.hashed hashPair (9 : Bytes32) 1 (treeSiblings [7, 9] 1) →
      pair = (leafAt [7, 9] 0, 9) := by
    intro pair hpair
    rw [treeSiblings, hheight] at hpair
    simpa [MerkleTree.hashed, MerkleTree.path, MerkleTree.arrange, MerkleTree.sibling,
      MerkleTree.value] using hpair
  rintro pair (hpair | hpair) pair' (hpair' | hpair') -
  all_goals exact (hone pair hpair).trans (hone pair' hpair').symm

end Rollup.LibMerkleTree
