import StateScript.Text.Utf8

/-! # Bytes

  Writers are functions to byte lists. A reader takes bytes from the front of a
  list and leaves the rest, so that a format is read field by field and bytes after
  the end of a value never matter. Integers come in two forms:

  - little-endian with a fixed number of bytes, which drops what does not fit;
  - variable length, seven bits per byte, the high bit set on all bytes but the last.
-/

namespace StateScript.Bytes

/-- A reader of bytes that may fail. -/
abbrev Reader (ε : Type) := StateT (List UInt8) (Except ε)

/-! ### Fixed length -/

/-- The `n` low bytes of `v`, the lowest first. -/
def little : Nat → Nat → List UInt8
  | 0, _ => []
  | n + 1, v => UInt8.ofNat v :: little n (v / 256)

/-- How many numbers can be written with `n` bytes. -/
def range : Nat → Nat
  | 0 => 1
  | n + 1 => 256 * range n

/-- The `n` low bytes of an integer in two's complement. -/
def littleInt (n : Nat) (v : Int) : List UInt8 := little n (v % range n).toNat

/-- The value of little-endian bytes. -/
def value : List UInt8 → Nat
  | [] => 0
  | b :: bs => b.toNat + 256 * value bs

/-- Takes exactly `n` bytes, or fails with `short`. -/
def take {ε : Type} (short : ε) (n : Nat) : Reader ε (List UInt8) := fun bytes =>
  let front := bytes.take n
  if front.length = n then .ok (front, bytes.drop n) else .error short

/-- Reads a natural number of `n` bytes. -/
def natural {ε : Type} (short : ε) (n : Nat) : Reader ε Nat := do
  return value (← take short n)

/-- Reads an integer of `n` bytes in two's complement. -/
def integer {ε : Type} (short : ε) (n : Nat) : Reader ε Int := do
  return Int.bmod (value (← take short n)) (range n)

/-- Reads `n` values one after the other. -/
def many {ε α : Type} (item : Reader ε α) : Nat → Reader ε (List α)
  | 0 => return []
  | n + 1 => do
    let x ← item
    let xs ← many item n
    return x :: xs

theorem length_little (n v : Nat) : (little n v).length = n := by
  induction n generalizing v with
  | zero => rfl
  | succ n ih => simp [little, ih]

/-- Little-endian bytes carry a number modulo their range. -/
theorem value_little (n v : Nat) : value (little n v) = v % range n := by
  induction n generalizing v with
  | zero => simp [little, value, range, Nat.mod_one]
  | succ n ih =>
    have h := Nat.mod_mul (x := v) (a := 256) (b := range n)
    simp [little, value, ih, range, h]

/-! ### Variable length -/

/-- Seven bits per byte, the lowest first. -/
def varint (v : Nat) : List UInt8 :=
  if v < 128 then [UInt8.ofNat v]
  else UInt8.ofNat (v % 128 + 128) :: varint (v / 128)
termination_by v
decreasing_by omega

/-- The reasons why no variable-length number can be read. -/
inductive VarintFault where
  /-- The bytes end before the number does. -/
  | short
  /-- The number has too many bytes, or too many bits in its last byte. -/
  | long
deriving DecidableEq

/-- Reads a number of at most `n` bytes, whose last byte may be at most `top` if
    all of them are used. -/
def readVarint (top : Nat) : Nat → List UInt8 → Except VarintFault (Nat × List UInt8)
  | 0, _ => .error .long
  | _ + 1, [] => .error .short
  | n + 1, b :: bs =>
    if b.toNat < 128 then
      if n = 0 ∧ top < b.toNat then .error .long else .ok (b.toNat, bs)
    else do
      let (high, rest) ← readVarint top n bs
      return (b.toNat - 128 + 128 * high, rest)

end StateScript.Bytes
