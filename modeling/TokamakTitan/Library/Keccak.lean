import TokamakTitan.Library.BigEndian

/-! The hash function Keccak-256: the permutation of 25 lanes, and the sponge around it. -/
namespace Keccak

abbrev Lane := BitVec 64

structure Plane where
  x0 : Lane
  x1 : Lane
  x2 : Lane
  x3 : Lane
  x4 : Lane

structure State where
  y0 : Plane
  y1 : Plane
  y2 : Plane
  y3 : Plane
  y4 : Plane

namespace Plane

def zero : Plane := ⟨0, 0, 0, 0, 0⟩

def xor (p q : Plane) : Plane :=
  ⟨p.x0 ^^^ q.x0, p.x1 ^^^ q.x1, p.x2 ^^^ q.x2, p.x3 ^^^ q.x3, p.x4 ^^^ q.x4⟩

def rotate (p : Plane) (r0 r1 r2 r3 r4 : ℕ) : Plane :=
  ⟨p.x0.rotateLeft r0, p.x1.rotateLeft r1, p.x2.rotateLeft r2, p.x3.rotateLeft r3,
    p.x4.rotateLeft r4⟩

def chi (p : Plane) : Plane :=
  ⟨p.x0 ^^^ (~~~p.x1 &&& p.x2), p.x1 ^^^ (~~~p.x2 &&& p.x3), p.x2 ^^^ (~~~p.x3 &&& p.x4),
    p.x3 ^^^ (~~~p.x4 &&& p.x0), p.x4 ^^^ (~~~p.x0 &&& p.x1)⟩

end Plane

namespace State

def zero : State := ⟨.zero, .zero, .zero, .zero, .zero⟩

def xor (s t : State) : State :=
  ⟨s.y0.xor t.y0, s.y1.xor t.y1, s.y2.xor t.y2, s.y3.xor t.y3, s.y4.xor t.y4⟩

variable (s : State)

def theta : State :=
  let c := (((s.y0.xor s.y1).xor s.y2).xor s.y3).xor s.y4
  let d : Plane :=
    ⟨c.x4 ^^^ c.x1.rotateLeft 1, c.x0 ^^^ c.x2.rotateLeft 1, c.x1 ^^^ c.x3.rotateLeft 1,
      c.x2 ^^^ c.x4.rotateLeft 1, c.x3 ^^^ c.x0.rotateLeft 1⟩
  ⟨s.y0.xor d, s.y1.xor d, s.y2.xor d, s.y3.xor d, s.y4.xor d⟩

def rho : State :=
  ⟨s.y0.rotate 0 1 62 28 27, s.y1.rotate 36 44 6 55 20, s.y2.rotate 3 10 43 25 39,
    s.y3.rotate 41 45 15 21 8, s.y4.rotate 18 2 61 56 14⟩

def pi : State :=
  ⟨⟨s.y0.x0, s.y1.x1, s.y2.x2, s.y3.x3, s.y4.x4⟩, ⟨s.y0.x3, s.y1.x4, s.y2.x0, s.y3.x1, s.y4.x2⟩,
    ⟨s.y0.x1, s.y1.x2, s.y2.x3, s.y3.x4, s.y4.x0⟩,
    ⟨s.y0.x4, s.y1.x0, s.y2.x1, s.y3.x2, s.y4.x3⟩,
    ⟨s.y0.x2, s.y1.x3, s.y2.x4, s.y3.x0, s.y4.x1⟩⟩

def chi : State := ⟨s.y0.chi, s.y1.chi, s.y2.chi, s.y3.chi, s.y4.chi⟩

def iota (constant : Lane) : State :=
  { s with y0 := { s.y0 with x0 := s.y0.x0 ^^^ constant } }

def roundConstants : List Lane :=
  [0x0000000000000001, 0x0000000000008082, 0x800000000000808A, 0x8000000080008000,
    0x000000000000808B, 0x0000000080000001, 0x8000000080008081, 0x8000000000008009,
    0x000000000000008A, 0x0000000000000088, 0x0000000080008009, 0x000000008000000A,
    0x000000008000808B, 0x800000000000008B, 0x8000000000008089, 0x8000000000008003,
    0x8000000000008002, 0x8000000000000080, 0x000000000000800A, 0x800000008000000A,
    0x8000000080008081, 0x8000000000008080, 0x0000000080000001, 0x8000000080008008]

def permute : State :=
  roundConstants.foldl (fun s constant => s.theta.rho.pi.chi.iota constant) s

end State

def rate : ℕ := 136

variable (block : List UInt8)

/-- A lane of a block; its bytes are in little-endian order, and it is zero behind the block. -/
def laneOf (i : ℕ) : Lane :=
  BitVec.ofNat 64 (BigEndian.decode ((block.drop (8 * i)).take 8).reverse)

def planeOf (y : ℕ) : Plane :=
  ⟨laneOf block (5 * y), laneOf block (5 * y + 1), laneOf block (5 * y + 2),
    laneOf block (5 * y + 3), laneOf block (5 * y + 4)⟩

def stateOf : State :=
  ⟨planeOf block 0, planeOf block 1, planeOf block 2, planeOf block 3, planeOf block 4⟩

def padding (length : ℕ) : List UInt8 :=
  if length % rate = rate - 1 then [0x81]
  else 0x01 :: (List.replicate (rate - 2 - length % rate) 0x00 ++ [0x80])

def absorb : ℕ → State → List UInt8 → State
  | 0, s, _ => s
  | blocks + 1, s, input =>
    absorb blocks (s.xor (stateOf (input.take rate))).permute (input.drop rate)

def laneBytes (lane : Lane) : List UInt8 := (BigEndian.encode 8 lane.toNat).reverse

def keccak256 (message : List UInt8) : List UInt8 :=
  let s := absorb (message.length / rate + 1) .zero (message ++ padding message.length)
  laneBytes s.y0.x0 ++ laneBytes s.y0.x1 ++ laneBytes s.y0.x2 ++ laneBytes s.y0.x3

end Keccak
