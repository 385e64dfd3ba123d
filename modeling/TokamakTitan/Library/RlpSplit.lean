import TokamakTitan.Library.Rlp

/-! Strict decoding of the recursive length prefix encoding: one item is split off the front of the
input, and an item that has a shorter encoding is refused. -/
namespace Rlp
open BigEndian List UInt8

inductive Kind where
  | string
  | list
  deriving DecidableEq

def splitLong (lengthOfLength : ℕ) (input : Bytes) : Option (Bytes × Bytes) :=
  match readBytes lengthOfLength input with
  | none => none
  | some (header, rest) =>
    if header.headD 0 = 0 ∨ decode header < 56 then none else readBytes (decode header) rest

def split : Bytes → Option (Kind × Bytes × Bytes)
  | [] => none
  | first :: input =>
    if first.toNat < 0x80 then some (.string, [first], input)
    else if first.toNat < 0xb8 then
      match readBytes (first.toNat - 0x80) input with
      | none => none
      | some (content, rest) =>
        if content.length = 1 ∧ (content.headD 0).toNat < 0x80 then none
        else some (.string, content, rest)
    else if first.toNat < 0xc0 then
      (splitLong (first.toNat - 0xb7) input).map fun r => (.string, r.1, r.2)
    else if first.toNat < 0xf8 then
      (readBytes (first.toNat - 0xc0) input).map fun r => (.list, r.1, r.2)
    else (splitLong (first.toNat - 0xf7) input).map fun r => (.list, r.1, r.2)

def splitString (input : Bytes) : Option (Bytes × Bytes) :=
  match split input with
  | some (.string, content, rest) => some (content, rest)
  | _ => none

def splitList (input : Bytes) : Option (Bytes × Bytes) :=
  match split input with
  | some (.list, content, rest) => some (content, rest)
  | _ => none

def splitFixed (size : ℕ) (input : Bytes) : Option (Bytes × Bytes) :=
  match splitString input with
  | some (content, rest) => if content.length = size then some (content, rest) else none
  | none => none

def splitUint (size : ℕ) (input : Bytes) : Option (ℕ × Bytes) :=
  match splitString input with
  | some (content, rest) =>
    if content.length ≤ size ∧ content.head? ≠ some 0 then some (decode content, rest) else none
  | none => none

/-- The strings that fill the input; each takes at least one byte of the fuel. -/
def splitStrings : ℕ → Bytes → Option (List Bytes)
  | _, [] => some []
  | 0, _ :: _ => none
  | fuel + 1, first :: input =>
    match splitString (first :: input) with
    | some (content, rest) => (splitStrings fuel rest).map (content :: ·)
    | none => none

variable {n : ℕ}

theorem headD_encode_byteLength (h : n ≠ 0) : (encode (byteLength n) n).headD 0 ≠ 0 := by
  intro hzero
  have hlength := length_encode (byteLength n) n
  have hdecode := decode_encode (lt_pow_byteLength n)
  cases hbytes : encode (byteLength n) n with
  | nil =>
    rw [hbytes] at hlength
    exact absurd hlength (by simp [byteLength])
  | cons first rest =>
    rw [hbytes] at hzero hlength hdecode
    have hfirst : first = 0 := hzero
    have hrest : rest.length = Nat.log 256 n := by simpa [byteLength] using hlength
    have hvalue : decode (first :: rest) = decode rest := by
      rw [← singleton_append, decode_append, hfirst]
      simp [decode]
    have hlt := decode_lt rest
    have hle := Nat.pow_log_le_self 256 h
    rw [hrest] at hlt
    omega

theorem decode_uintBytes (n : ℕ) : decode (uintBytes n) = n := by
  unfold uintBytes
  split
  next h => rw [h, decode_nil]
  next => exact decode_encode (lt_pow_byteLength n)

theorem head?_uintBytes (n : ℕ) : (uintBytes n).head? ≠ some 0 := by
  unfold uintBytes
  split
  next => simp
  next h =>
    intro hzero
    exact headD_encode_byteLength h (by rw [headD_eq_head?_getD, hzero, Option.getD_some])

variable {b : Bytes}

theorem dropWhile_replicate_zero (m : ℕ) (h : b.head? ≠ some 0) :
    (replicate m 0 ++ b).dropWhile (· = 0) = b := by
  induction m with
  | zero =>
    cases b with
    | nil => rfl
    | cons x =>
      have hx : x ≠ 0 := fun hx => h (by rw [hx]; rfl)
      simp [hx]
  | succ m ih => simpa [replicate_succ] using ih

theorem length_uintBytes_le (h : n < 2 ^ 64) : (uintBytes n).length ≤ 8 := by
  unfold uintBytes
  split
  next => simp
  next =>
    rw [length_encode]
    exact byteLength_le h

theorem splitLong_encode {content : Bytes} (h : ¬ content.length < 56) (rest : Bytes) :
    splitLong (byteLength content.length)
      (encode (byteLength content.length) content.length ++ (content ++ rest)) =
      some (content, rest) := by
  have hhead := headD_encode_byteLength (n := content.length) (by omega)
  unfold splitLong
  rw [readBytes_append (length_encode _ _)]
  simp only [decode_encode (lt_pow_byteLength content.length)]
  rw [if_neg (by tauto), readBytes_append rfl]

theorem split_encodeString (h : b.length < 2 ^ 64) (rest : Bytes) :
    split (encodeString b ++ rest) = some (.string, b, rest) := by
  by_cases hbyte : b.length = 1 ∧ (b.headD 0).toNat < 0x80
  · obtain ⟨x, rfl⟩ := length_eq_one_iff.mp hbyte.1
    have hx : x.toNat < 0x80 := hbyte.2
    rw [encodeString_byte hx, singleton_append, split, if_pos hx]
  · rw [encodeString_header hbyte, append_assoc]
    by_cases hshort : b.length < 56
    · have hfirst : (ofNat (stringOffset + b.length)).toNat = 0x80 + b.length := by
        rw [toNat_ofNat', stringOffset]
        omega
      rw [encodeLength_short _ hshort, singleton_append, split, hfirst,
        if_neg (by omega), if_pos (by omega), Nat.add_sub_cancel_left, readBytes_append rfl]
      exact if_neg hbyte
    · have hpos := byteLength_pos b.length
      have hle := byteLength_le h
      have hfirst : (ofNat (stringOffset + 55 + byteLength b.length)).toNat =
          0xb7 + byteLength b.length := by
        rw [toNat_ofNat', stringOffset]
        omega
      rw [encodeLength_long _ hshort, cons_append, split, hfirst, if_neg (by omega),
        if_neg (by omega), if_pos (by omega), Nat.add_sub_cancel_left,
        splitLong_encode hshort, Option.map_some]

variable {items : List Bytes}

theorem split_encodeList (h : items.flatten.length < 2 ^ 64) (rest : Bytes) :
    split (encodeList items ++ rest) = some (.list, items.flatten, rest) := by
  rw [encodeList, append_assoc]
  by_cases hshort : items.flatten.length < 56
  · have hfirst : (ofNat (listOffset + items.flatten.length)).toNat =
        0xc0 + items.flatten.length := by
      rw [toNat_ofNat', listOffset]
      omega
    rw [encodeLength_short _ hshort, singleton_append, split, hfirst, if_neg (by omega),
      if_neg (by omega), if_neg (by omega), if_pos (by omega), Nat.add_sub_cancel_left,
      readBytes_append rfl, Option.map_some]
  · have hpos := byteLength_pos items.flatten.length
    have hle := byteLength_le h
    have hfirst : (ofNat (listOffset + 55 + byteLength items.flatten.length)).toNat =
        0xf7 + byteLength items.flatten.length := by
      rw [toNat_ofNat', listOffset]
      omega
    rw [encodeLength_long _ hshort, cons_append, split, hfirst, if_neg (by omega),
      if_neg (by omega), if_neg (by omega), if_neg (by omega), Nat.add_sub_cancel_left,
      splitLong_encode hshort, Option.map_some]

theorem splitString_encodeString (h : b.length < 2 ^ 64) (rest : Bytes) :
    splitString (encodeString b ++ rest) = some (b, rest) := by
  rw [splitString, split_encodeString h]

theorem splitList_encodeList (h : items.flatten.length < 2 ^ 64) (rest : Bytes) :
    splitList (encodeList items ++ rest) = some (items.flatten, rest) := by
  rw [splitList, split_encodeList h]

theorem splitFixed_encodeString {size : ℕ} (hsize : b.length = size) (h : size < 2 ^ 64)
    (rest : Bytes) : splitFixed size (encodeString b ++ rest) = some (b, rest) := by
  rw [splitFixed, splitString_encodeString (hsize.trans_lt h)]
  exact if_pos hsize

theorem splitUint_encodeString (h : n < 2 ^ 64) (rest : Bytes) :
    splitUint 8 (encodeString (uintBytes n) ++ rest) = some (n, rest) := by
  have hlength := length_uintBytes_le h
  rw [splitUint, splitString_encodeString (by omega)]
  dsimp only
  rw [if_pos ⟨hlength, head?_uintBytes n⟩, decode_uintBytes]

theorem splitStrings_encodeString (h : ∀ b ∈ items, b.length < 2 ^ 64) {fuel : ℕ}
    (hfuel : items.length ≤ fuel) :
    splitStrings fuel (items.map encodeString).flatten = some items := by
  induction items generalizing fuel with
  | nil => cases fuel <;> rfl
  | cons b items ih =>
    obtain ⟨fuel, rfl⟩ : ∃ k, fuel = k + 1 := ⟨fuel - 1, by simp at hfuel; omega⟩
    have hrest := ih (fun c hc => h c (mem_cons_of_mem b hc)) (by simpa using hfuel)
    have hsplit := splitString_encodeString (h b mem_cons_self) (items.map encodeString).flatten
    rw [map_cons, flatten_cons]
    cases hinput : encodeString b ++ (items.map encodeString).flatten with
    | nil =>
      have hpos := length_encodeString_pos b
      have hnil := congrArg length hinput
      rw [length_append, length_nil] at hnil
      omega
    | cons =>
      rw [hinput] at hsplit
      rw [splitStrings, hsplit]
      simp [hrest]

end Rlp
