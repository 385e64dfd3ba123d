import TokamakTitan.Library.Hex
import TokamakTitan.Derive.Types

/-! Frames: the pieces of a channel that are stored in L1 transactions. -/
namespace Derive
open BigEndian List

abbrev ChannelID := BitVec 128

def maxFrameLen : ℕ := 1000000

def derivationVersion0 : UInt8 := 0

structure Frame where
  id : ChannelID
  frameNumber : BitVec 16
  data : Bytes
  isLast : Bool
  deriving DecidableEq

def ChannelID.string (id : ChannelID) : String :=
  String.ofList (Hex.digits (encode 16 id.toNat))

/-- Read exactly `n` bytes. The end of the input is another error when a part was read. -/
def readFull (n : ℕ) (input : Bytes) : Except String (Bytes × Bytes) :=
  match readBytes n input with
  | some r => .ok r
  | none => .error (if input = [] then "EOF" else "unexpected EOF")

theorem readFull_append {n : ℕ} {xs : Bytes} (h : xs.length = n) (rest : Bytes) :
    readFull n (xs ++ rest) = .ok (xs, rest) := by
  rw [readFull, readBytes_append h]

variable {rest input : Bytes}

theorem readFull_eq_ok {n : ℕ} {xs : Bytes} (h : readFull n input = .ok (xs, rest)) :
    xs.length = n ∧ input = xs ++ rest := by
  unfold readFull readBytes at h
  split at h
  next r hr =>
    split_ifs at hr with hle
    cases hr
    cases h
    exact ⟨length_take_of_le hle, (take_append_drop n input).symm⟩
  next => cases h

theorem encode_toNat_decode {n w : ℕ} {bs : Bytes} (h : bs.length = n) (hw : 256 ^ n = 2 ^ w) :
    encode n (BitVec.ofNat w (decode bs)).toNat = bs := by
  have hlt := decode_lt bs
  rw [h, hw] at hlt
  rw [BitVec.toNat_ofNat, Nat.mod_eq_of_lt hlt, ← h, encode_decode]

namespace Frame

variable (f : Frame)

def marshalBinary : Bytes :=
  encode 16 f.id.toNat ++ (encode 2 f.frameNumber.toNat ++ (encode 4 f.data.length ++
    (f.data ++ [if f.isLast then 1 else 0])))

/-- A frame at the front of the input. Without the last byte the frame is not the last one, and the
caller accepts the end of the input that is reported then. -/
def unmarshalBinary (input : Bytes) : Except String (Frame × Bytes) :=
  match readFull 16 input with
  | .error err => .error s!"error reading ID: {err}"
  | .ok (id, input) =>
    match readFull 2 input with
    | .error err => .error s!"error reading frame number: {err}"
    | .ok (frameNumber, input) =>
      match readFull 4 input with
      | .error err => .error s!"error reading frame length: {err}"
      | .ok (length, input) =>
        let frameLength := decode length
        if frameLength > maxFrameLen then .error s!"frameLength is too large: {frameLength}"
        else match readFull frameLength input with
          | .error err => .error s!"error reading frame data: {err}"
          | .ok (data, input) =>
            let f : Frame := {
              id := BitVec.ofNat 128 (decode id)
              frameNumber := BitVec.ofNat 16 (decode frameNumber)
              data
              isLast := false }
            match input with
            | [] => .ok (f, [])
            | isLastByte :: input =>
              if isLastByte = 0 then .ok (f, input)
              else if isLastByte = 1 then .ok ({ f with isLast := true }, input)
              else .error "invalid byte as is_last"

variable {f : Frame}

theorem unmarshalBinary_fields (h : f.data.length ≤ maxFrameLen) (tail : Bytes) :
    unmarshalBinary (encode 16 f.id.toNat ++ (encode 2 f.frameNumber.toNat ++
        (encode 4 f.data.length ++ (f.data ++ tail)))) =
      match tail with
      | [] => .ok ({ f with isLast := false }, [])
      | isLastByte :: rest =>
        if isLastByte = 0 then .ok ({ f with isLast := false }, rest)
        else if isLastByte = 1 then .ok ({ f with isLast := true }, rest)
        else .error "invalid byte as is_last" := by
  have hmax : maxFrameLen = 1000000 := rfl
  have hid : BitVec.ofNat 128 (decode (encode 16 f.id.toNat)) = f.id := by
    rw [decode_encode (f.id.isLt.trans_le (by norm_num)), BitVec.ofNat_toNat, BitVec.setWidth_eq]
  have hnumber : BitVec.ofNat 16 (decode (encode 2 f.frameNumber.toNat)) = f.frameNumber := by
    rw [decode_encode (f.frameNumber.isLt.trans_le (by norm_num)), BitVec.ofNat_toNat,
      BitVec.setWidth_eq]
  have hlength : decode (encode 4 f.data.length) = f.data.length :=
    decode_encode (by omega)
  unfold unmarshalBinary
  simp only [readFull_append (length_encode _ _), hlength]
  rw [if_neg (by omega), readFull_append rfl, hid, hnumber]

theorem unmarshalBinary_marshalBinary (h : f.data.length ≤ maxFrameLen) (rest : Bytes) :
    unmarshalBinary (f.marshalBinary ++ rest) = .ok (f, rest) := by
  simp only [marshalBinary, append_assoc, singleton_append, unmarshalBinary_fields h]
  cases hlast : f.isLast with
  | false =>
    rw [if_neg Bool.false_ne_true, if_pos rfl, ← hlast]
  | true =>
    rw [if_pos rfl, if_neg (by decide), if_pos rfl, ← hlast]

variable {input : Bytes}

theorem unmarshalBinary_eq_ok (h : unmarshalBinary input = .ok (f, rest)) :
    f.data.length ≤ maxFrameLen ∧ (input = f.marshalBinary ++ rest ∨
      f.isLast = false ∧ rest = [] ∧ input ++ [0] = f.marshalBinary) := by
  unfold unmarshalBinary at h
  split at h
  next => cases h
  next id input₁ hreadID =>
    split at h
    next => cases h
    next number input₂ hreadNumber =>
      split at h
      next => cases h
      next length input₃ hreadLength =>
        dsimp only at h
        split at h
        next => cases h
        next hle =>
          split at h
          next => cases h
          next data tail hreadData =>
            obtain ⟨hid, rfl⟩ := readFull_eq_ok hreadID
            obtain ⟨hnumber, rfl⟩ := readFull_eq_ok hreadNumber
            obtain ⟨hlength, rfl⟩ := readFull_eq_ok hreadLength
            obtain ⟨hdata, rfl⟩ := readFull_eq_ok hreadData
            have hencoded := encode_decode length
            rw [hlength, ← hdata] at hencoded
            have hmarshal (isLast : Bool) : marshalBinary ⟨BitVec.ofNat 128 (decode id),
                BitVec.ofNat 16 (decode number), data, isLast⟩ =
                id ++ (number ++ (length ++ (data ++ [if isLast then 1 else 0]))) := by
              rw [marshalBinary, encode_toNat_decode hid (by norm_num),
                encode_toNat_decode hnumber (by norm_num), hencoded]
            split at h
            next =>
              cases h
              refine ⟨by dsimp only; omega, .inr ⟨rfl, rfl, ?_⟩⟩
              simp [hmarshal]
            next byte rest' =>
              split_ifs at h with hzero hone
              all_goals
                cases h
                refine ⟨by dsimp only; omega, .inl ?_⟩
              · simp [hmarshal, hzero]
              · simp [hmarshal, hone]

theorem length_marshalBinary : f.marshalBinary.length = 23 + f.data.length := by
  simp only [marshalBinary, length_append, length_encode, length_singleton]
  omega

theorem length_unmarshalBinary (h : Frame.unmarshalBinary input = .ok (f, rest)) :
    22 + f.data.length + rest.length ≤ input.length := by
  have hlength := f.length_marshalBinary
  rcases (unmarshalBinary_eq_ok h).2 with hinput | ⟨-, hrest, hinput⟩
  · rw [hinput, length_append]
    omega
  · have hwhole := congrArg length hinput
    rw [length_append, length_singleton] at hwhole
    rw [hrest, length_nil]
    omega

theorem unmarshalBinary_of_concat (h : f.data.length ≤ maxFrameLen)
    (hinput : input ++ [0] = f.marshalBinary) : unmarshalBinary input = .ok (f, []) := by
  have hlast : f.isLast = false := by
    cases hlast : f.isLast with
    | false => rfl
    | true =>
      rw [marshalBinary, hlast, if_pos rfl, ← append_assoc, ← append_assoc,
        ← append_assoc] at hinput
      exact absurd (append_inj' hinput rfl).2 (by decide)
  rw [marshalBinary, hlast, if_neg Bool.false_ne_true, ← append_assoc, ← append_assoc,
    ← append_assoc] at hinput
  have hread := unmarshalBinary_fields h []
  rw [append_nil, ← append_assoc, ← append_assoc, ← append_cancel_right hinput] at hread
  rw [hread, ← hlast]

theorem length_data_le : f.data.length ≤ f.marshalBinary.length := by
  simp only [marshalBinary, length_append]
  omega

theorem marshalBinary_ne_nil : f.marshalBinary ≠ [] := by
  intro h
  have hlength := congrArg length h
  simp [marshalBinary] at hlength

end Frame

/-- The frames that fill the input; each takes more than one unit of the fuel. -/
def framesFrom : ℕ → Bytes → Except String (List Frame)
  | _, [] => .ok []
  | 0, _ :: _ => .error "did not fully consume data"
  | fuel + 1, first :: input =>
    match Frame.unmarshalBinary (first :: input) with
    | .error err => .error err
    | .ok (f, rest) =>
      match framesFrom fuel rest with
      | .error err => .error err
      | .ok frames => .ok (f :: frames)

def parseFrames : Bytes → Except String (List Frame)
  | [] => .error "data array must not be empty"
  | version :: input =>
    if version ≠ derivationVersion0 then
      .error s!"invalid derivation format byte: got {version}"
    else match framesFrom input.length input with
      | .error err => .error err
      | .ok [] => .error "was not able to find any frames"
      | .ok (f :: frames) => .ok (f :: frames)

variable {frames : List Frame} {fuel : ℕ}

theorem framesFrom_marshalBinary (h : ∀ f ∈ frames, f.data.length ≤ maxFrameLen)
    (hfuel : frames.length ≤ fuel) :
    framesFrom fuel (frames.flatMap Frame.marshalBinary) = .ok frames := by
  induction frames generalizing fuel with
  | nil => cases fuel <;> rfl
  | cons f frames ih =>
    obtain ⟨fuel, rfl⟩ : ∃ k, fuel = k + 1 := ⟨fuel - 1, by simp at hfuel; omega⟩
    have hrest := ih (fun g hg => h g (mem_cons_of_mem f hg)) (by simpa using hfuel)
    have hread := Frame.unmarshalBinary_marshalBinary (h f mem_cons_self)
      (frames.flatMap Frame.marshalBinary)
    rw [flatMap_cons]
    cases hinput : f.marshalBinary ++ frames.flatMap Frame.marshalBinary with
    | nil => exact absurd (append_eq_nil_iff.mp hinput).1 f.marshalBinary_ne_nil
    | cons =>
      rw [hinput] at hread
      simp only [framesFrom, hread, hrest]

theorem length_le_flatMap_marshalBinary (frames : List Frame) :
    frames.length ≤ (frames.flatMap Frame.marshalBinary).length := by
  induction frames with
  | nil => simp
  | cons f =>
    have hpos := length_pos_of_ne_nil f.marshalBinary_ne_nil
    rw [flatMap_cons, length_append, length_cons]
    omega

theorem parseFrames_marshalBinary (hne : frames ≠ [])
    (h : ∀ f ∈ frames, f.data.length ≤ maxFrameLen) :
    parseFrames (derivationVersion0 :: frames.flatMap Frame.marshalBinary) = .ok frames := by
  obtain ⟨f, rest, rfl⟩ := exists_cons_of_ne_nil hne
  rw [parseFrames, if_neg (by simp),
    framesFrom_marshalBinary h (length_le_flatMap_marshalBinary (f :: rest))]

theorem framesFrom_of_concat (h : ∀ f ∈ frames, f.data.length ≤ maxFrameLen)
    (hfuel : input.length ≤ fuel) (hinput : input ++ [0] = frames.flatMap Frame.marshalBinary) :
    framesFrom fuel input = .ok frames := by
  induction frames generalizing fuel input with
  | nil => simp at hinput
  | cons f frames ih =>
    obtain ⟨hf, hframes⟩ := forall_mem_cons.mp h
    have hmarshal := f.length_marshalBinary
    have hlength := congrArg length hinput
    simp only [flatMap_cons, length_append, length_singleton] at hlength
    obtain ⟨fuel, rfl⟩ : ∃ k, fuel = k + 1 := ⟨fuel - 1, by omega⟩
    obtain ⟨first, rest, hcons⟩ := exists_cons_of_length_pos (l := input) (by omega)
    rw [flatMap_cons] at hinput
    -- the byte that is missing is that of the last frame
    rcases eq_nil_or_concat' (frames.flatMap Frame.marshalBinary) with hnil | ⟨front, x, hx⟩
    · rw [hnil, append_nil] at hinput
      have hread := Frame.unmarshalBinary_of_concat hf hinput
      have hframes : frames = [] := by
        cases frames with
        | nil => rfl
        | cons g =>
          rw [flatMap_cons] at hnil
          exact absurd (append_eq_nil_iff.mp hnil).1 g.marshalBinary_ne_nil
      rw [hcons] at hread ⊢
      simp only [framesFrom, hread, hframes]
    · rw [hx, ← append_assoc] at hinput
      obtain ⟨hfront, hzero⟩ := append_inj' hinput rfl
      have hread := Frame.unmarshalBinary_marshalBinary hf front
      rw [← hfront] at hread
      have hless : front.length ≤ fuel := by
        rw [hfront, length_append] at hfuel
        omega
      have hrest := ih hframes hless (by rw [hx, hzero])
      rw [hcons] at hread ⊢
      simp only [framesFrom, hread, hrest]

theorem framesFrom_eq_ok (h : framesFrom fuel input = .ok frames) :
    (∀ f ∈ frames, f.data.length ≤ maxFrameLen) ∧
      (input = frames.flatMap Frame.marshalBinary ∨
        input ++ [0] = frames.flatMap Frame.marshalBinary) := by
  induction fuel generalizing input frames with
  | zero =>
    cases input with
    | nil =>
      cases h
      exact ⟨by simp, .inl rfl⟩
    | cons => cases h
  | succ fuel ih =>
    cases input with
    | nil =>
      cases h
      exact ⟨by simp, .inl rfl⟩
    | cons =>
      rw [framesFrom] at h
      split at h
      next => cases h
      next f rest hread =>
        split at h
        next => cases h
        next frames hframes =>
          cases h
          obtain ⟨hf, hinput⟩ := Frame.unmarshalBinary_eq_ok hread
          obtain ⟨hall, hrest⟩ := ih hframes
          refine ⟨forall_mem_cons.mpr ⟨hf, hall⟩, ?_⟩
          rw [flatMap_cons]
          rcases hinput with hinput | ⟨-, rfl, hinput⟩
          · rw [hinput, append_assoc, append_cancel_left_eq, append_cancel_left_eq]
            exact hrest
          · have hnil : frames = [] := by
              cases fuel <;> exact (Except.ok.inj hframes).symm
            rw [hnil, flatMap_nil, append_nil]
            exact .inr hinput

def IsEncoding (d : Bytes) (frames : List Frame) : Prop :=
  frames ≠ [] ∧ (∀ f ∈ frames, f.data.length ≤ maxFrameLen) ∧
    d = derivationVersion0 :: frames.flatMap Frame.marshalBinary

theorem parseFrames_eq_ok {d : Bytes} :
    parseFrames d = .ok frames ↔ IsEncoding d frames ∨ IsEncoding (d ++ [0]) frames := by
  constructor
  · intro h
    cases d with
    | nil => cases h
    | cons =>
      rw [parseFrames] at h
      split at h
      next => cases h
      next hversion =>
        rw [not_not] at hversion
        split at h
        next => cases h
        next => cases h
        next f rest hframes =>
          cases h
          obtain ⟨hall, hinput⟩ := framesFrom_eq_ok hframes
          rw [hversion]
          rcases hinput with hinput | hinput
          · exact .inl ⟨by simp, hall, by rw [hinput]⟩
          · exact .inr ⟨by simp, hall, by rw [cons_append, hinput]⟩
  · rintro (⟨hne, hall, rfl⟩ | ⟨hne, hall, hd⟩)
    · exact parseFrames_marshalBinary hne hall
    · obtain ⟨f, rest, rfl⟩ := exists_cons_of_ne_nil hne
      cases d with
      | nil =>
        have hlength := congrArg length (cons.inj hd).2
        rw [flatMap_cons, length_append, f.length_marshalBinary] at hlength
        simp only [length_nil] at hlength
        omega
      | cons =>
        obtain ⟨rfl, hinput⟩ := cons.inj hd
        rw [parseFrames, if_neg (by simp), framesFrom_of_concat hall le_rfl hinput]

/-- Parsing is exact on a string unless it lacks the last byte of a frame that is not the last
one. -/
theorem parseFrames_exact_iff (d : Bytes) :
    (∀ frames, parseFrames d = .ok frames ↔ IsEncoding d frames) ↔
      ∀ frames, ¬ IsEncoding (d ++ [0]) frames := by
  constructor
  · intro hexact frames h
    obtain ⟨-, -, hd⟩ := (hexact frames).mp (parseFrames_eq_ok.mpr (.inr h))
    have hlength := congrArg List.length (hd.trans h.2.2.symm)
    rw [List.length_append, List.length_singleton] at hlength
    omega
  · intro hwhole frames
    rw [parseFrames_eq_ok, or_iff_left (hwhole frames)]

theorem truncated_frame_parsed :
    ∃ (f : Frame) (d : Bytes), d ++ [0] = derivationVersion0 :: f.marshalBinary ∧
      parseFrames d = .ok [f] :=
  ⟨⟨7, 0, [0x0a], false⟩,
    derivationVersion0 :: (Frame.marshalBinary ⟨7, 0, [0x0a], false⟩).dropLast, by decide,
    by decide⟩

end Derive
