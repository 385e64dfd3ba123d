import TokamakTitan.Library.BigEndian

/-! Streaming compression: a writer emits bytes when it is written to, flushed or closed, and a
reader recovers the input. The instance below stores the input without compressing it. -/
namespace Zlib
open BigEndian List

abbrev Bytes := List UInt8

structure Inflated where
  data : Bytes
  failure : Option String
  deriving DecidableEq

structure Codec where
  Writer : Type
  newWriter : Writer
  write : Writer → Bytes → Writer × Bytes
  flush : Writer → Writer × Bytes
  close : Writer → Bytes
  inflate : Bytes → Except String Inflated

inductive Codec.Produced (codec : Codec) : Bytes → codec.Writer → Bytes → Prop
  | start : codec.Produced [] codec.newWriter []
  | write {input out : Bytes} {w : codec.Writer} (b : Bytes) (h : codec.Produced input w out) :
      codec.Produced (input ++ b) (codec.write w b).1 (out ++ (codec.write w b).2)
  | flush {input out : Bytes} {w : codec.Writer} (h : codec.Produced input w out) :
      codec.Produced input (codec.flush w).1 (out ++ (codec.flush w).2)

def Codec.Lossless (codec : Codec) : Prop :=
  ∀ {input out : Bytes} {w : codec.Writer}, codec.Produced input w out →
    codec.inflate (out ++ codec.close w) = .ok { data := input, failure := none }

def adlerModulus : ℕ := 65521

def adler32 (data : Bytes) : ℕ :=
  let sums := data.foldl (fun s b =>
    ((s.1 + b.toNat) % adlerModulus, (s.2 + s.1 + b.toNat) % adlerModulus)) (1, 0)
  sums.2 * 65536 + sums.1

def storedBlocks : ℕ → Bytes → Bytes → Inflated
  | fuel + 1, kind :: low :: high :: lowComplement :: highComplement :: input, data =>
    let size := low.toNat + 256 * high.toNat
    if 1 < kind.toNat ∨ lowComplement.toNat + 256 * highComplement.toNat + size ≠ 65535 then
      { data, failure := some "flate: corrupt input" }
    else match readBytes size input with
      | none => { data := data ++ input, failure := some "unexpected EOF" }
      | some (block, rest) =>
        if kind.toNat = 0 then storedBlocks fuel rest (data ++ block)
        else if rest.take 4 = encode 4 (adler32 (data ++ block)) then
          { data := data ++ block, failure := none }
        else { data := data ++ block, failure := some "zlib: invalid checksum" }
  | _, _, data => { data, failure := some "unexpected EOF" }

def inflateStored : Bytes → Except String Inflated
  | method :: flags :: input =>
    if method.toNat ≠ 0x78 ∨ (method.toNat * 256 + flags.toNat) % 31 ≠ 0 then
      .error "zlib: invalid header"
    else .ok (storedBlocks (input.length + 1) input [])
  | _ => .error "EOF"

def storedHeader (started : Bool) : Bytes := if started then [] else [0x78, 0xda]

def storedByte (b : UInt8) : Bytes := [0, 1, 0, 0xfe, 0xff, b]

/-- The input without compression: each byte is a block. The writer keeps whether it has started
and the input. -/
def stored : Codec where
  Writer := Bool × Bytes
  newWriter := (false, [])
  write w b := ((true, w.2 ++ b), storedHeader w.1 ++ b.flatMap storedByte)
  flush w := ((true, w.2), storedHeader w.1 ++ [0, 0, 0, 0xff, 0xff])
  close w := storedHeader w.1 ++ [1, 0, 0, 0xff, 0xff] ++ encode 4 (adler32 w.2)
  inflate := inflateStored

variable (fuel : ℕ)

theorem storedBlocks_byte (b : UInt8) (rest data : Bytes) :
    storedBlocks (fuel + 1) (storedByte b ++ rest) data =
      storedBlocks fuel rest (data ++ [b]) := rfl

theorem storedBlocks_bytes (bs rest data : Bytes) :
    storedBlocks (bs.length + fuel) (bs.flatMap storedByte ++ rest) data =
      storedBlocks fuel rest (data ++ bs) := by
  induction bs generalizing data with
  | nil => simp
  | cons b bs ih =>
    rw [flatMap_cons, append_assoc, length_cons, Nat.add_right_comm,
      storedBlocks_byte, ih, append_assoc, singleton_append]

theorem storedBlocks_empty (rest data : Bytes) :
    storedBlocks (fuel + 1) ([0, 0, 0, 0xff, 0xff] ++ rest) data =
      storedBlocks fuel rest data := by
  have h : storedBlocks (fuel + 1) ([0, 0, 0, 0xff, 0xff] ++ rest) data =
      storedBlocks fuel rest (data ++ []) := rfl
  rw [h, append_nil]

theorem storedBlocks_final (data : Bytes) :
    storedBlocks (fuel + 1) ([1, 0, 0, 0xff, 0xff] ++ encode 4 (adler32 data)) data =
      { data, failure := none } := by
  have hread : readBytes 0 (encode 4 (adler32 data)) = some ([], encode 4 (adler32 data)) := rfl
  have hsum : (encode 4 (adler32 data)).take 4 = encode 4 (adler32 data) :=
    take_of_length_le (by simp)
  simp [storedBlocks, hread, hsum]

theorem stored_produced {input out : Bytes} {w : stored.Writer} (h : stored.Produced input w out) :
    w.2 = input ∧ ∃ body blocks, out ++ storedHeader w.1 = [0x78, 0xda] ++ body ∧
      blocks ≤ body.length ∧ ∀ fuel rest, storedBlocks (blocks + fuel) (body ++ rest) [] =
        storedBlocks fuel rest input := by
  induction h with
  | start => exact ⟨rfl, [], 0, rfl, le_rfl, fun fuel rest => by simp⟩
  | @write input out w b _ ih =>
    obtain ⟨hinput, body, blocks, hout, hle, hread⟩ := ih
    refine ⟨congrArg (· ++ b) hinput, body ++ b.flatMap storedByte, blocks + b.length, ?_, ?_, ?_⟩
    · have hstarted : storedHeader true = [] := rfl
      simp only [stored, hstarted, append_nil]
      rw [← append_assoc, hout, append_assoc]
    · have hbytes : (b.flatMap storedByte).length = 6 * b.length := by
        rw [length_flatMap]
        simp [storedByte, mul_comm]
      rw [length_append, hbytes]
      omega
    · intro fuel rest
      rw [append_assoc, Nat.add_assoc, hread, storedBlocks_bytes]
  | @flush input out w _ ih =>
    obtain ⟨hinput, body, blocks, hout, hle, hread⟩ := ih
    refine ⟨hinput, body ++ [0, 0, 0, 0xff, 0xff], blocks + 1, ?_, ?_, ?_⟩
    · have hstarted : storedHeader true = [] := rfl
      simp only [stored, hstarted, append_nil]
      rw [← append_assoc, hout, append_assoc]
    · rw [length_append]
      simp
      omega
    · intro fuel rest
      rw [append_assoc, Nat.add_assoc, hread, Nat.add_comm 1 fuel, storedBlocks_empty]

theorem stored_lossless : stored.Lossless := by
  intro input out w h
  obtain ⟨hinput, body, blocks, hout, hle, hread⟩ := stored_produced h
  have hclose : out ++ stored.close w =
      0x78 :: 0xda :: (body ++ ([1, 0, 0, 0xff, 0xff] ++ encode 4 (adler32 input))) := by
    simp only [stored]
    rw [← append_assoc, ← append_assoc, hout, hinput]
    simp
  obtain ⟨fuel, hfuel⟩ : ∃ fuel, (body ++ ([1, 0, 0, 0xff, 0xff] ++
      encode 4 (adler32 input))).length + 1 = blocks + (fuel + 1) := by
    refine ⟨(body ++ ([1, 0, 0, 0xff, 0xff] ++ encode 4 (adler32 input))).length - blocks, ?_⟩
    rw [length_append]
    omega
  have hinflate : stored.inflate (out ++ stored.close w) =
      .ok (storedBlocks ((body ++ ([1, 0, 0, 0xff, 0xff] ++ encode 4 (adler32 input))).length + 1)
        (body ++ ([1, 0, 0, 0xff, 0xff] ++ encode 4 (adler32 input))) []) := by
    rw [hclose]
    rfl
  rw [hinflate, hfuel, hread, storedBlocks_final]

end Zlib
