import StateScript.Number.Binary

/-! # Shortest decimals

  A floating point number is written with the fewest decimal digits that read back
  to it, and of the decimals with that many digits the nearest one. The digits are
  always written positionally: zeros fill the places up to the point, no exponent
  is used, and a whole number has no point.

  The reals that read back to a number form an interval around it, whose ends
  belong to it if the number's bits are even. A grid of decimals with `n` digits is
  tried for growing `n`; if any point of a grid lies in the interval, one of the
  two grid points next to the number does.
-/

namespace StateScript.Number

/-- The interval that reads back to a number, and the number, as multiples of one
    over `den`. -/
structure Interval where
  low : Nat
  mid : Nat
  high : Nat
  den : Nat
  closed : Bool

namespace Format

/-- The interval of a finite number that is not zero. Just above a power of two the
    numbers below are twice as dense. -/
def interval (f : Format) (bits : Nat) : Interval :=
  let (m, q) := f.decode bits
  let scale := if q < 0 then 1 else pow2 q.toNat
  let den := 4 * (if q < 0 then pow2 (-q).toNat else 1)
  let below := if m = pow2 f.fraction ∧ f.least < q then 1 else 2
  { low := (4 * m - below) * scale
    mid := 4 * m * scale
    high := (4 * m + 2) * scale
    den := den
    closed := m % 2 = 0 }

end Format

namespace Interval

/-- Whether `n * 10 ^ k` lies in the interval. -/
def contains (i : Interval) (n : Nat) (k : Int) : Bool :=
  let point := if k < 0 then n else n * pow10 k.toNat
  let unit := if k < 0 then pow10 (-k).toNat else 1
  -- compare `point / unit` with the ends
  let low := i.low * unit
  let high := i.high * unit
  let x := point * i.den
  if i.closed then low ≤ x && x ≤ high else low < x && x < high

/-- The two neighbours of the number among the multiples of `10 ^ k`, as `n` and
    `n + 1`, with the comparison that tells which is nearer. -/
def neighbours (i : Interval) (k : Int) : Nat × Ordering :=
  let num := if k < 0 then i.mid * pow10 (-k).toNat else i.mid
  let den := if k < 0 then i.den else i.den * pow10 k.toNat
  (num / den, compare (2 * (num % den)) den)

/-- The decimal on the grid of `10 ^ k` that reads back to the number; of two the
    nearer one, and the upper one if they are equally near. -/
def onGrid? (i : Interval) (k : Int) : Option Nat :=
  let (n, side) := i.neighbours k
  match i.contains n k, i.contains (n + 1) k with
  | true, true => if side = .lt then some n else some (n + 1)
  | true, false => some n
  | false, true => some (n + 1)
  | false, false => none

/-- How many digits stand before the point; at most zero for a number below one. -/
def magnitude (i : Interval) : Int :=
  if i.den ≤ i.mid then (Nat.toDigits 10 (i.mid / i.den)).length
  else
    -- the number of zeros after the point
    match (List.range 400).find? fun j => i.den ≤ i.mid * pow10 (j + 1) with
    | some zeros => Int.negOfNat zeros
    | none => 0

/-- Tries grids with `n`, `n + 1`, … digits; the answer is `d * 10 ^ k`. -/
def search (i : Interval) (magnitude : Int) : Nat → Nat → Nat × Int
  | 0, _ => (0, 0)
  | fuel + 1, n =>
    let k := magnitude - n
    match i.onGrid? k with
    | some d => (d, k)
    | none => search i magnitude fuel (n + 1)

/-- The shortest decimal that reads back; 17 digits are always enough. -/
def shortest (i : Interval) : Nat × Int := i.search i.magnitude 20 1

end Interval

/-- Writes `d * 10 ^ k` positionally. -/
def positional (d : Nat) (k : Int) : String :=
  let digits := Nat.toDigits 10 d
  if 0 ≤ k then String.ofList (digits ++ List.replicate k.toNat '0')
  else
    let places := (-k).toNat
    let padded := List.replicate (places + 1 - digits.length) '0' ++ digits
    let whole := padded.take (padded.length - places)
    -- zeros at the end of the fraction are not written
    let fraction := ((padded.drop (padded.length - places)).reverse.dropWhile (· == '0')).reverse
    if fraction.isEmpty then String.ofList whole
    else String.ofList (whole ++ '.' :: fraction)

/-- Text of a floating point number in a listing. -/
def Format.render (f : Format) (bits : Nat) : String :=
  let (negative, low) := f.split bits
  let sign := if negative then "-" else ""
  if f.infinity < low then "NaN"
  else if low = f.infinity then sign ++ "inf"
  else if low = 0 then sign ++ "0"
  else
    let (d, k) := (f.interval low).shortest
    sign ++ positional d k

end StateScript.Number
