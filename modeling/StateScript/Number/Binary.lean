import StateScript.Number.Power

/-! # Binary floating point

  A floating point number is kept as its bits. A format says how many bits the
  exponent and the fraction have; a sign bit stands in front of them. Without its
  sign, a finite number is `m * 2 ^ q` with `m` below `2 ^ (fraction + 1)`, and the
  bits grow with the number, so that rounding upwards may simply carry into the
  exponent.

  `Format.round` finds the bits of the number nearest to a fraction of naturals; of
  two numbers that are equally near it takes the one with even bits.
-/

namespace StateScript.Number

/-- Sizes of the fields of a floating point format. -/
structure Format where
  exponent : Nat
  fraction : Nat

/-- Four bytes. -/
def single : Format := ⟨8, 23⟩

/-- Eight bytes. -/
def double : Format := ⟨11, 52⟩

/-- `num / den` rounded to the nearest natural, a tie to the even one. -/
def roundHalfEven (num den : Nat) : Nat :=
  let q := num / den
  let r := num % den
  if 2 * r < den then q
  else if den < 2 * r then q + 1
  else q + q % 2

namespace Format

/-- What is added to an exponent before it is stored. -/
def bias (f : Format) : Nat := pow2 (f.exponent - 1) - 1

/-- Weight of the sign bit. -/
def signBit (f : Format) : Nat := pow2 (f.exponent + f.fraction)

/-- Bits of positive infinity. -/
def infinity (f : Format) : Nat := (pow2 f.exponent - 1) * pow2 f.fraction

/-- The exponent of the last bit of the smallest numbers. -/
def least (f : Format) : Int := 1 - f.bias - f.fraction

/-- A finite number without its sign as `m * 2 ^ q`. -/
def decode (f : Format) (bits : Nat) : Nat × Int :=
  let e := bits / pow2 f.fraction
  let m := bits % pow2 f.fraction
  if e = 0 then (m, f.least) else (pow2 f.fraction + m, f.least + (e - 1 : Nat))

/-- Bits of the number nearest to `num / den`; too large a number becomes infinity. -/
def round (f : Format) (num den : Nat) : Nat :=
  if num = 0 then 0
  else
    let guess : Int := (num.log2 : Int) - den.log2
    -- the exponent of the leading bit of the quotient
    let lead : Int :=
      let shifted := if guess < 0 then num * pow2 (-guess).toNat else num
      let scaled := if guess < 0 then den else den * pow2 guess.toNat
      if shifted < scaled then guess - 1 else guess
    let q := max (lead - f.fraction) f.least
    let m :=
      if q < 0 then roundHalfEven (num * pow2 (-q).toNat) den
      else roundHalfEven num (den * pow2 q.toNat)
    min f.infinity ((q - f.least).toNat * pow2 f.fraction + m)

/-- A finite number without its sign as a fraction of naturals. -/
def fractionOf (f : Format) (bits : Nat) : Nat × Nat :=
  let (m, q) := f.decode bits
  if q < 0 then (m, pow2 (-q).toNat) else (m * pow2 q.toNat, 1)

/-- Sign and the bits below it. -/
def split (f : Format) (bits : Nat) : Bool × Nat :=
  (decide (f.signBit ≤ bits), bits % f.signBit)

/-- Puts a sign in front of bits. -/
def join (f : Format) (negative : Bool) (bits : Nat) : Nat :=
  if negative then f.signBit + bits else bits

/-- Bits of the number nearest to a natural. -/
def ofNat (f : Format) (n : Nat) : Nat := f.round n 1

/-- Bits of the number nearest to an integer. -/
def ofInt (f : Format) (n : Int) : Nat := f.join (n < 0) (f.round n.natAbs 1)

/-- The number with the other sign. -/
def negate (f : Format) (bits : Nat) : Nat :=
  let (negative, low) := f.split bits
  f.join (!negative) low

/-- Whether a number is zero, of either sign. -/
def isZero (f : Format) (bits : Nat) : Bool := bits % f.signBit == 0

end Format

/-- The nearest four-byte number to an eight-byte number that is not NaN. -/
def narrow (bits : Nat) : Nat :=
  let (negative, low) := double.split bits
  if double.infinity ≤ low then single.join negative single.infinity
  else
    let (num, den) := double.fractionOf low
    single.join negative (single.round num den)

/-- The integer part of an eight-byte number that is not NaN, within `-2 ^ 63` and
    `2 ^ 63 - 1`; a number beyond them gives the nearer one. -/
def truncate (bits : Nat) : Int :=
  let (negative, low) := double.split bits
  let whole :=
    if double.infinity ≤ low then pow2 63
    else
      let (num, den) := double.fractionOf low
      num / den
  if negative then -(min whole (pow2 63) : Nat) else (min whole (pow2 63 - 1) : Nat)

end StateScript.Number
