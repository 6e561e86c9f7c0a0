/-
  Replay.Keccak — the 256-bit Keccak hash that address checksums are taken from.

  The state is five by five lanes of sixty-four bits; lane `x, y` stands at `x + 5 * y`. A
  message is absorbed in blocks of 136 bytes, the last one padded by a one bit at either
  end, and the first four lanes are the hash.
-/

namespace Replay.Keccak

abbrev State := List UInt64

def lane (s : State) (x y : Nat) : UInt64 := s.getD (x % 5 + 5 * (y % 5)) 0

/-- A state given lane by lane. -/
def build (f : Nat → Nat → UInt64) : State :=
  (List.range 25).map fun i => f (i % 5) (i / 5)

def rotate (w : UInt64) (n : Nat) : UInt64 :=
  if n % 64 = 0 then w else (w <<< UInt64.ofNat (n % 64)) ||| (w >>> UInt64.ofNat (64 - n % 64))

/-- How far lane `x, y` is turned. -/
def turns : List Nat :=
  [0, 1, 62, 28, 27, 36, 44, 6, 55, 20, 3, 10, 43, 25, 39, 41, 45, 15, 21, 8, 18, 2, 61, 56, 14]

def roundConstants : List UInt64 :=
  [0x0000000000000001, 0x0000000000008082, 0x800000000000808A, 0x8000000080008000,
   0x000000000000808B, 0x0000000080000001, 0x8000000080008081, 0x8000000000008009,
   0x000000000000008A, 0x0000000000000088, 0x0000000080008009, 0x000000008000000A,
   0x000000008000808B, 0x800000000000008B, 0x8000000000008089, 0x8000000000008003,
   0x8000000000008002, 0x8000000000000080, 0x000000000000800A, 0x800000008000000A,
   0x8000000080008081, 0x8000000000008080, 0x0000000080000001, 0x8000000080008008]

/-! ## One round -/

def column (s : State) (x : Nat) : UInt64 :=
  lane s x 0 ^^^ lane s x 1 ^^^ lane s x 2 ^^^ lane s x 3 ^^^ lane s x 4

/-- Every lane takes in the columns on either side. -/
def theta (s : State) : State :=
  let columns := (List.range 5).map (column s)
  let c (x : Nat) := columns.getD (x % 5) 0
  build fun x y => lane s x y ^^^ c (x + 4) ^^^ rotate (c (x + 1)) 1

/-- Lanes are turned and change places. -/
def turn (s : State) : State :=
  build fun x y =>
    let x' := x + 3 * y
    rotate (lane s x' x) (turns.getD (x' % 5 + 5 * (x % 5)) 0)

/-- The one step that is not linear. -/
def chi (s : State) : State :=
  build fun x y => lane s x y ^^^ ((lane s (x + 1) y ^^^ 0xFFFFFFFFFFFFFFFF) &&& lane s (x + 2) y)

def withConstant (k : UInt64) : State → State
  | [] => []
  | w :: ws => (w ^^^ k) :: ws

def permute (s : State) : State :=
  roundConstants.foldl (fun s k => withConstant k (chi (turn (theta s)))) s

/-! ## Sponge -/

/-- Bytes of a block. -/
def rate : Nat := 136

/-- At least one byte is added, and the last bit of the last one is set. -/
def padded (message : List UInt8) : List UInt8 :=
  let gap := rate - message.length % rate
  if gap = 1 then message ++ [0x81]
  else message ++ [0x01] ++ List.replicate (gap - 2) 0 ++ [0x80]

/-- Eight bytes, the least first. -/
def word (bytes : List UInt8) : UInt64 :=
  bytes.foldr (fun b w => (w <<< 8) ||| b.toUInt64) 0

def absorb (s : State) (block : List UInt8) : State :=
  permute (build fun x y =>
    let i := x + 5 * y
    if i < rate / 8 then lane s x y ^^^ word ((block.drop (8 * i)).take 8) else lane s x y)

def laneBytes (w : UInt64) : List UInt8 :=
  (List.range 8).map fun i => (w >>> UInt64.ofNat (8 * i)).toUInt8

def hash (message : List UInt8) : List UInt8 :=
  let text := padded message
  let blocks := (List.range (text.length / rate)).map fun i => (text.drop (rate * i)).take rate
  ((blocks.foldl absorb (List.replicate 25 0)).take 4).flatMap laneBytes

end Replay.Keccak
